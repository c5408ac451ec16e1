import Zso.Tape.Log
import Zso.Tape.QueueShape
import Zso.Tape.RealDevice

/-!
# EJECT ioctls

All EJECT calls of a section share one flag, `ioctl_cmd_done`, and one status.

* A completion that finds the flag still set is lost: the number of waiting calls
  and the number of completions to come stay equal only while this does not
  happen (`waiting_eq`, `ejector_stranded`).
* A call takes whatever completion it finds: it answers for its own command only
  if it has the section to itself (`eject_answers_own_command`,
  `eject_answers_for_other`).
-/

namespace Zso.Tape
open Transition

variable {D : DevModel}

/-- The ioctl commands in the queue. -/
def ejects (q : List LstNode) : List LstNode := q.filter LstNode.isIoctl

/-- The statuses with which an ioctl command leaves the queue. -/
def SectStatus.Final (st : SectStatus) : Prop := st = .done ∨ st = .errNoTape

instance : DecidablePred SectStatus.Final := fun st => by
  unfold SectStatus.Final
  infer_instance

/-! ## The queue -/

theorem ejects_append (q q' : List LstNode) : ejects (q ++ q') = ejects q ++ ejects q' :=
  List.filter_append ..

theorem ejects_cons_ioctl {n : LstNode} (h : n.isIoctl = true) (q : List LstNode) :
    ejects (n :: q) = n :: ejects q := by
  simp [ejects, h]

theorem ejects_cons_request {n : LstNode} (h : n.isIoctl = false) (q : List LstNode) :
    ejects (n :: q) = ejects q := by
  simp [ejects, h]

/-- The abort leaves the ioctl commands. -/
theorem ejects_fromIoctl (q : List LstNode) : ejects (fromIoctl q) = ejects q := by
  induction q with
  | nil => rfl
  | cons n q ih =>
    cases hn : n.isIoctl with
    | true => simp [fromIoctl, hn]
    | false =>
      have hd : fromIoctl (n :: q) = fromIoctl q := by simp [fromIoctl, hn]
      rw [hd, ih, ejects_cons_request hn]

theorem BuiltFor.ejects {r : Nat} {q : List LstNode} (h : BuiltFor r q) : ejects q = [] :=
  List.filter_eq_nil_iff.mpr fun n hn => by simp [(h.notIoctl n hn).1]

section
variable {sec : Section} {node : LstNode} {rest : List LstNode} {st : SectStatus}

/-- An ioctl command leaves the queue. -/
theorem completeHead_eject (c : Nat) (sec : Section) (rest : List LstNode) (hst : st.Final) :
    (completeHead sec (ioctlNode c) rest st).1.cmdQueue = rest ∧
    (completeHead sec (ioctlNode c) rest st).1.ioctlCmdDone = true ∧
    (completeHead sec (ioctlNode c) rest st).1.ioctlStatus =
      if st = .done then sec.ioctlStatus else (SectStatus.errNoTape.code : Int) := by
  have hio : (ioctlNode c).isIoctl = true := rfl
  have hcmd : fieldCmd (ioctlNode c).word = CMD_EJECT_TAPE := by
    show fieldCmd CMD_EJECT_TAPE = CMD_EJECT_TAPE
    decide
  rcases hst with rfl | rfl
  · simp [completeHead, hio, hcmd]
  · simp [completeHead, hio]

/-- Everything else is of no concern to the ioctls. -/
theorem completeHead_not_eject (hq : sec.cmdQueue = node :: rest)
    (hst : node.isIoctl = true → ¬ st.Final) :
    ejects (completeHead sec node rest st).1.cmdQueue = ejects sec.cmdQueue ∧
    (completeHead sec node rest st).1.ioctlCmdDone = sec.ioctlCmdDone ∧
    (completeHead sec node rest st).1.ioctlStatus = sec.ioctlStatus := by
  cases hio : node.isIoctl with
  | true =>
    obtain ⟨hd, hn⟩ := not_or.mp (hst hio)
    simp [completeHead, hio, hd, hn]
  | false =>
    rw [hq, ejects_cons_request hio]
    by_cases hd : st = .done
    · simp [completeHead, hio, hd]
    · by_cases hn : st = .errNoTape
      · simp [completeHead, hio, hn]
      · simp [completeHead, hio, hd, hn, ejects_fromIoctl]

end

section
variable {s s' : Sys D} {pre suf post : List LstNode}

@[simp] theorem Sys.link_waiters (s : Sys D) (nodes : List LstNode) :
    (s.link nodes).waiters = s.waiters := by
  unfold Sys.link
  split <;> simp

@[simp] theorem Sys.link_nextCall (s : Sys D) (nodes : List LstNode) :
    (s.link nodes).nextCall = s.nextCall := by
  unfold Sys.link
  split <;> simp

/-- The commands being submitted are not ioctl commands. -/
theorem Sys.Parts.built (h : s.Parts pre suf post) {r : Nat} {nodes : List LstNode}
    (hsub : s.submit = .built r nodes) : BuiltFor r nodes := by
  have hreq := h.request
  simp only [Sys.RequestOk, hsub] at hreq
  exact hreq.2.2.2

/-- A call's command is the node of the call. -/
theorem Sys.Parts.eq_ioctlNode (h : s.Parts pre suf post) {c : Nat} {n : LstNode}
    (hn : n ∈ s.sec.cmdQueue) (ho : n.owner = .ioctl c) : n = ioctlNode c := by
  have hio : ∃ c', n = ioctlNode c' := by
    rw [h.queue, List.mem_append, List.mem_append] at hn
    rcases hn with (hn | hn) | hn
    · exact h.ioctlPre n hn
    · obtain ⟨-, r, -, -, hb, -⟩ := h.request.queued (List.ne_nil_of_mem hn)
      rw [(h.mem_suf hb n hn).2] at ho
      cases ho
    · exact h.ioctlPost n hn
  obtain ⟨c', rfl⟩ := hio
  cases ho
  rfl

theorem Sys.Parts.mem_ejects (h : s.Parts pre suf post) {c : Nat} {n : LstNode}
    (hn : n ∈ s.sec.cmdQueue) (ho : n.owner = .ioctl c) : ioctlNode c ∈ ejects s.sec.cmdQueue := by
  rw [h.eq_ioctlNode hn ho] at hn
  exact List.mem_filter.mpr ⟨hn, rfl⟩

/-! ## Counting -/

/-- An ioctl command completes only while the flag is clear, and no call is
interrupted. -/
def ReportsTaken (s : Sys D) (l : Label D) : Prop :=
  (∀ c, l ≠ .signal c) ∧
  (l = .handle → ∀ node rest done error st, s.sec.cmdQueue = node :: rest → node.isIoctl = true →
    s.irq = some ⟨done, error, some st⟩ → done = true ∨ error = true → st.Final →
    s.sec.ioctlCmdDone = false)

/-- The waiting calls match the completions to come. -/
def Sys.Balanced (s : Sys D) : Prop :=
  s.waiters.length = (ejects s.sec.cmdQueue).length + s.sec.ioctlCmdDone.toNat

theorem balanced_step {l : Label D} (h : s.Balanced) (hsh : s.Shaped) (hG : ReportsTaken s l)
    (hs : s.Step l s') : s'.Balanced := by
  obtain ⟨pre, suf, post, hp⟩ := hsh
  cases hs with
  | submit write start env ho hi => exact h
  | unsupported start env ho hi => exact h
  | built r write start env st hsub hplan => exact h
  | notBuilt r write start env e hsub hplan => exact h
  | splice r nodes hsub => simpa [Sys.Balanced, ejects_append, (hp.built hsub).ejects] using h
  | fail r status hsub => exact h
  | ejectOom => exact h
  | ejectReturn hf =>
    -- the new command takes the place of the completion that is consumed
    simp only [Sys.Balanced, hf, Bool.toNat_true] at h
    simp [Sys.Balanced, Sys.consume, ejectConsume, Sys.linkEject, ejects_append, h]
    rfl
  | ejectWait hf =>
    simp only [Sys.Balanced, hf, Bool.toNat_false] at h
    simp [Sys.Balanced, Sys.linkEject, ejects_append, h, hf]
    rfl
  | wake c hc hf =>
    simp only [Sys.Balanced, hf, Bool.toNat_true] at h
    simp [Sys.Balanced, Sys.consume, ejectConsume, List.length_erase_of_mem hc, h]
  | signal c hc hf => exact absurd rfl (hG.1 c)
  | snapshot hirq => exact h
  | readStatus done error hirq => exact h
  | nothing sn hirq hd he => exact h
  | complete node rest st hirq hq hrep =>
    have hgoal : ∀ t : Sys D, t = (s.completed node rest st) →
        t.waiters.length = (ejects t.sec.cmdQueue).length + t.sec.ioctlCmdDone.toNat →
        t.sendHead.Balanced := fun t _ ht => by simpa [Sys.Balanced] using ht
    refine hgoal _ rfl ?_
    by_cases hej : node.isIoctl = true ∧ st.Final
    · obtain ⟨c, rfl⟩ : ∃ c, node = ioctlNode c := by
        obtain ⟨pre', rfl, -⟩ := hp.head_ioctl hq hej.1
        exact hp.ioctlPre node List.mem_cons_self
      obtain ⟨h1, h2, -⟩ := completeHead_eject c s.sec rest hej.2
      have hflag := hG.2 rfl _ _ _ _ _ hq rfl hirq (by cases st.isErr <;> simp) hej.2
      simp only [Sys.Balanced, hq, ejects_cons_ioctl hej.1, hflag] at h
      simpa [Sys.completed, h1, h2] using h
    · obtain ⟨h1, h2, -⟩ := completeHead_not_eject hq fun hio hst => hej ⟨hio, hst⟩
      simp only [Sys.completed, h1, h2]
      exact h
  | goes a dev ht => exact h
  | answers a dev node rest st ht hq hexec => exact h
  | otherLine level => exact h

theorem waiting_eq (h : (system D).ReachOn ReportsTaken s) : s.Balanced := by
  refine Lts.invariantOn (fun s hi => ?_) (fun s l s' hr hp hg hs => ?_) h
  · simp [Sys.Balanced, hi.waiters, hi.queue, hi.flag, ejects]
  · have hf : s.Flow := flow_reachOn (fun _ => Sys.Initial.flow) hr
    exact balanced_step hp (shaped_reachOn hr) hg (Sys.next_step hf hs)

/-- The calls that wait are at most the ioctl commands still in the queue and the
completion still to be consumed. No call waits when there is neither. -/
theorem no_stranded_ejector (h : (system D).ReachOn ReportsTaken s) :
    s.waiters.length ≤ (ejects s.sec.cmdQueue).length + s.sec.ioctlCmdDone.toNat ∧
    (ejects s.sec.cmdQueue = [] → s.sec.ioctlCmdDone = false → s.waiters = []) := by
  have heq := waiting_eq h
  refine ⟨Nat.le_of_eq heq, fun hq hf => ?_⟩
  rw [Sys.Balanced, hq, hf] at heq
  exact List.length_eq_zero_iff.mp heq

end

/-- Two calls: the first command completes and the first call takes the completion. -/
theorem no_stranded_ejector_two :
    ∃ s : Sys anyDevice, (system anyDevice).ReachOn ReportsTaken s ∧
      s.waiters = [1] ∧ (ejects s.sec.cmdQueue).length = 1 ∧
      s.waiters.length ≤ (ejects s.sec.cmdQueue).length + s.sec.ioctlCmdDone.toNat := by
  let start : List (Label anyDevice) :=
    [.eject false, .eject false, .tick .done, .snapshot, .readStatus]
  let s := ((system anyDevice).exec freshSection start).get (by decide +kernel)
  let s' := (s.next .handle).get (by decide +kernel)
  let s'' := (s'.next (.wake 0)).get (by decide +kernel)
  have hs : (system anyDevice).exec freshSection start = some s := (Option.some_get _).symm
  have hr : (system anyDevice).ReachOn ReportsTaken s := by
    refine Lts.ReachOn.exec (.init freshSection_initial) (fun l hl s => ⟨fun c hc => ?_, fun hh => ?_⟩)
      hs
    · subst hc
      simp [start] at hl
    · subst hh
      simp [start] at hl
  have hflag : s.sec.ioctlCmdDone = false := by decide +kernel
  have hG : ReportsTaken s .handle := ⟨by simp, fun _ _ _ _ _ _ _ _ _ _ _ => hflag⟩
  have hG' : ReportsTaken s' (.wake 0) := ⟨by simp, by simp⟩
  have hs' : s.next .handle = some s' := (Option.some_get _).symm
  have hs'' : s'.next (.wake 0) = some s'' := (Option.some_get _).symm
  have hr'' : (system anyDevice).ReachOn ReportsTaken s'' := (hr.step hG hs').step hG' hs''
  exact ⟨s'', hr'', by decide +kernel, by decide +kernel, (no_stranded_ejector hr'').1⟩

/-- Two calls, and both commands complete before a call runs, the first with DONE and the
second, with no tape left in the drive, with ERR_NO_TAPE. The second completion overwrites the
first, and one call is left waiting for nothing. No call has been interrupted. -/
theorem ejector_stranded :
    ∃ s : Sys (realDevice Nat),
      (system (realDevice Nat)).ReachOn (fun _ l => ∀ c, l ≠ .signal c) s ∧
      s.log = [.sent (ioctlNode 0) true, .answered (ioctlNode 0) .done, .sent (ioctlNode 1) true,
        .answered (ioctlNode 1) .errNoTape, .returned 0 (- EIO)] ∧
      s.sec.cmdQueue = [] ∧ s.sec.ioctlCmdDone = false ∧ s.waiters = [1] := by
  let report : List (Label (realDevice Nat)) := [.snapshot, .readStatus, .handle]
  let run := [.eject false, .eject false, .tick (.io ⟨none, true, true, true⟩)] ++ report ++
    report ++ [.wake 0]
  let s := ((system (realDevice Nat)).exec probedSection run).get (by decide +kernel)
  have hs : (system (realDevice Nat)).exec probedSection run = some s := (Option.some_get _).symm
  refine ⟨s, ?_, by decide +kernel, by decide +kernel, by decide +kernel, by decide +kernel⟩
  refine Lts.ReachOn.exec (.init probedSection_initial) (fun l hl s c hc => ?_) hs
  subst hc
  simp [run, report] at hl

/-! ## Whose completion a call takes -/

def Event.completion : Event → Option SectStatus
  | .answered _ st => if st.Final then some st else none
  | _ => none

/-- The statuses with which the command of a call has completed. -/
def completions (history : List Event) : List SectStatus := history.filterMap Event.completion

/-- An EJECT call enters only when no other one has a command in the queue or a
completion to take. -/
def EntersAlone (s : Sys D) (l : Label D) : Prop :=
  l = .eject false → ejects s.sec.cmdQueue = [] ∧ s.sec.ioctlCmdDone = false

/-- The call `c` has returned `code`, after its command completed with the matching
status. -/
def Settled (c : Nat) (code : Int) (history : List Event) : Prop :=
  ∃ l st, history = l ++ [.returned c code] ∧ completions l = [st] ∧
    code = if st = .done then 0 else - EIO

/-- How far the call `o` has got, with no other one in the section. -/
inductive Sys.Phase (s : Sys D) : Option Nat → Prop
  | free :
      ejects s.sec.cmdQueue = [] → s.sec.ioctlCmdDone = false → s.waiters = [] →
      s.sec.ioctlStatus = 0 → s.Phase none
  /-- the command is in the queue -/
  | queued (c : Nat) :
      ejects s.sec.cmdQueue = [ioctlNode c] → s.sec.ioctlCmdDone = false →
      s.sec.ioctlStatus = 0 →
      (s.waiters = [] ∨ s.waiters = [c] ∧ ∃ hist evs, completions hist = [] ∧
        s.HeadEvents (.ioctl c) s.sec.cmdQueue evs ∧
        historyOf (.ioctl c) s.log = hist ++ evs) → s.Phase (some c)
  /-- the command has completed -/
  | reported (c : Nat) (st : SectStatus) :
      ejects s.sec.cmdQueue = [] → s.sec.ioctlCmdDone = true → st.Final →
      s.sec.ioctlStatus = (if st = .done then 0 else (SectStatus.errNoTape.code : Int)) →
      (s.waiters = [] ∨ s.waiters = [c] ∧ completions (historyOf (.ioctl c) s.log) = [st]) →
      s.Phase (some c)

structure Sys.Calls (s : Sys D) (o : Option Nat) : Prop where
  phase : s.Phase o
  bound : ∀ c, o = some c → c < s.nextCall
  fresh : ∀ c, s.nextCall ≤ c → historyOf (.ioctl c) s.log = []
  /-- the call in the section has not been answered -/
  unanswered : ∀ c code, o = some c → .returned c code ∈ historyOf (.ioctl c) s.log →
    code ≠ 0 ∧ code ≠ - EIO
  settled : ∀ c code, .returned c code ∈ historyOf (.ioctl c) s.log → code = 0 ∨ code = - EIO →
    Settled c code (historyOf (.ioctl c) s.log)

theorem completions_append (l l' : List Event) :
    completions (l ++ l') = completions l ++ completions l' := List.filterMap_append

theorem completions_exchange (n : LstNode) (st : SectStatus) :
    completions (exchange (n, st)) = if st.Final then [st] else [] := by
  show List.filterMap Event.completion [.sent n true, .answered n st] = _
  rw [List.filterMap_cons_none rfl]
  by_cases h : st.Final
  · rw [List.filterMap_cons_some (b := st) (by simp [Event.completion, h]), if_pos h]
    rfl
  · rw [List.filterMap_cons_none (by simp [Event.completion, h]), if_neg h]
    rfl

section
variable {s s' : Sys D} {pre suf post : List LstNode} {o : Option Nat}

/-- The call in the section is the only one with a command in the queue. -/
theorem Sys.Phase.owner (h : s.Phase o) (hp : s.Parts pre suf post) {c : Nat} (hc : o ≠ some c) :
    ∀ n ∈ s.sec.cmdQueue, n.owner ≠ .ioctl c := by
  intro n hn how
  have hmem := hp.mem_ejects hn how
  cases h with
  | free hq =>
    rw [hq] at hmem
    cases hmem
  | queued c' hq =>
    rw [hq, List.mem_singleton] at hmem
    cases hmem
    exact hc rfl
  | reported c' st hq =>
    rw [hq] at hmem
    cases hmem

theorem Sys.Phase.congr (h : s.Phase o) (hq : s'.sec.cmdQueue = s.sec.cmdQueue)
    (hflag : s'.sec.ioctlCmdDone = s.sec.ioctlCmdDone)
    (hst : s'.sec.ioctlStatus = s.sec.ioctlStatus) (hw : s'.waiters = s.waiters)
    (hl : ∀ c, historyOf (.ioctl c) s'.log = historyOf (.ioctl c) s.log)
    (hf : ∀ n evs, s.Facing n evs → s'.Facing n evs) : s'.Phase o := by
  cases h with
  | free h1 h2 h3 h4 =>
    exact .free (by rw [hq, h1]) (by rw [hflag, h2]) (by rw [hw, h3]) (by rw [hst, h4])
  | queued c h1 h2 h3 h4 =>
    refine .queued c (by rw [hq, h1]) (by rw [hflag, h2]) (by rw [hst, h3]) ?_
    rw [hw, hl, hq]
    refine h4.imp id fun ⟨h5, hist, evs, h6, h7, h8⟩ => ⟨h5, hist, evs, h6, h7.mono (hf · evs), h8⟩
  | reported c st h1 h2 h3 h4 h5 =>
    refine .reported c st (by rw [hq, h1]) (by rw [hflag, h2]) h3 (by rw [hst, h4]) ?_
    rw [hw, hl]
    exact h5

/-- Steps that are of no concern to the calls. -/
theorem Sys.Calls.congr (h : s.Calls o) (hq : s'.sec.cmdQueue = s.sec.cmdQueue)
    (hflag : s'.sec.ioctlCmdDone = s.sec.ioctlCmdDone)
    (hst : s'.sec.ioctlStatus = s.sec.ioctlStatus) (hw : s'.waiters = s.waiters)
    (hn : s'.nextCall = s.nextCall)
    (hl : ∀ c, historyOf (.ioctl c) s'.log = historyOf (.ioctl c) s.log)
    (hf : ∀ n evs, s.Facing n evs → s'.Facing n evs) : s'.Calls o := by
  refine ⟨h.phase.congr hq hflag hst hw hl hf, by rw [hn]; exact h.bound, fun c => ?_,
    fun c code => ?_, fun c code => ?_⟩
  · rw [hn, hl]
    exact h.fresh c
  · rw [hl]
    exact h.unanswered c code
  · rw [hl]
    exact h.settled c code

/-- Steps in which something happens to the command of the call in the section. -/
theorem Sys.Calls.update (h : s.Calls o) {o' : Option Nat} (hphase : s'.Phase o')
    (ho' : ∀ c, o' = some c → o = some c) (hn : s'.nextCall = s.nextCall)
    (hother : ∀ c, o ≠ some c → historyOf (.ioctl c) s'.log = historyOf (.ioctl c) s.log)
    (hmine : ∀ c, o = some c → ∀ code, .returned c code ∈ historyOf (.ioctl c) s'.log →
      .returned c code ∈ historyOf (.ioctl c) s.log) : s'.Calls o' := by
  refine ⟨hphase, fun c hc => ?_, fun c hc => ?_, fun c code hc hret => ?_,
    fun c code hret hcode => ?_⟩
  · rw [hn]
    exact h.bound c (ho' c hc)
  · rw [hn] at hc
    have hne : o ≠ some c := fun ho => absurd (h.bound c ho) (by omega)
    rw [hother c hne]
    exact h.fresh c hc
  · exact h.unanswered c code (ho' c hc) (hmine c (ho' c hc) code hret)
  · by_cases ho : o = some c
    · obtain ⟨h1, h2⟩ := h.unanswered c code ho (hmine c ho code hret)
      rcases hcode with hcode | hcode
      · exact absurd hcode h1
      · exact absurd hcode h2
    · rw [hother c ho] at hret ⊢
      exact h.settled c code hret hcode

theorem Sys.HeadEvents.not_returned {w : Owner} {q : List LstNode} {evs : List Event}
    (h : s.HeadEvents w q evs) (c : Nat) (code : Int) : .returned c code ∉ evs := by
  cases q with
  | nil =>
    have hnil : evs = [] := h
    simp [hnil]
  | cons n q =>
    by_cases hw : n.owner = w
    · rcases (Sys.headEvents_self hw).mp h with ⟨-, rfl⟩ | ⟨st, -, rfl⟩ | ⟨-, rfl⟩ <;> simp
    · simp [(Sys.headEvents_other hw).mp h]

/-- The handler calls nothing but `blk_mq_end_request`. -/
theorem completeHead_ended (sec : Section) (node : LstNode) (rest : List LstNode)
    (st : SectStatus) : ∀ e ∈ (completeHead sec node rest st).2, ∃ r v x, e = .ended r v x := by
  have hend : ∀ (req : Option Nat) (v : BlkStatus), ∀ e ∈ endEvents req v, ∃ r v x,
      e = .ended r v x := by
    intro req v e he
    cases req with
    | none => cases he
    | some r => exact ⟨r, v, some r, List.mem_singleton.mp he⟩
  intro e he
  unfold completeHead at he
  split at he
  · dsimp only at he
    split at he
    · exact hend _ _ e he
    · cases he
  · split at he
    · cases he
    · split at he
      · cases he
      · dsimp only at he
        split at he
        · cases he
        · exact hend _ _ e he

section
variable {node : LstNode} {rest : List LstNode} {st : SectStatus}

/-- After the handler has dealt with the head, the log gains what sending the next command
adds. -/
theorem Sys.Reported.send_events (hrep : s.Reported node st) (rest : List LstNode) (c : Nat) :
    ∃ evs, (s.completed node rest st).sendHead.HeadEvents (.ioctl c)
        (s.completed node rest st).sec.cmdQueue evs ∧
      historyOf (.ioctl c) (s.completed node rest st).sendHead.log =
        historyOf (.ioctl c) s.log ++ evs := by
  have hquiet : (s.completed node rest st).Quiet := ⟨hrep.resting, hrep.cur, rfl, rfl⟩
  have hlog : historyOf (.ioctl c) (s.completed node rest st).log = historyOf (.ioctl c) s.log := by
    show historyOf _ (s.log ++ _) = _
    rw [historyOf_append, historyOf_none (l := (completeHead s.sec node rest st).2), List.append_nil]
    intro e he
    obtain ⟨r, v, x, rfl⟩ := completeHead_ended _ _ _ _ e he
    simp [Event.about]
  obtain ⟨evs, hev, hhist⟩ :=
    hquiet.sendOpt_events (.ioctl c) (s.completed node rest st).sec.cmdQueue
  exact ⟨evs, hev, by rw [← hlog]; exact hhist⟩

/-- No call returns while the handler runs. -/
theorem Sys.Reported.returned (hrep : s.Reported node st) {c : Nat} {code : Int}
    (hret : .returned c code ∈ historyOf (.ioctl c) (s.completed node rest st).sendHead.log) :
    .returned c code ∈ historyOf (.ioctl c) s.log := by
  obtain ⟨evs, hev, hhist⟩ := hrep.send_events rest c
  rw [hhist] at hret
  exact (List.mem_append.mp hret).resolve_right (hev.not_returned c code)

/-- A call whose command is not queued is not concerned. -/
theorem Sys.Reported.history_other (hrep : s.Reported node st) (hp : s.Parts pre suf post)
    (hq : s.sec.cmdQueue = node :: rest) {c : Nat}
    (hc : ioctlNode c ∉ ejects (s.completed node rest st).sec.cmdQueue) :
    historyOf (.ioctl c) (s.completed node rest st).sendHead.log = historyOf (.ioctl c) s.log := by
  obtain ⟨pre', suf', post', hp'⟩ := hp.complete hq st
  obtain ⟨evs, hev, hhist⟩ := hrep.send_events rest c
  rw [hhist, hev.eq_nil fun n hn how => hc (hp'.mem_ejects hn how), List.append_nil]

/-- The handler's work on the head, as the calls see it. -/
theorem Sys.completed_sendHead (s : Sys D) (node : LstNode) (rest : List LstNode)
    (st : SectStatus) :
    (s.completed node rest st).sendHead.sec = (completeHead s.sec node rest st).1 ∧
    (s.completed node rest st).sendHead.waiters = s.waiters ∧
    (s.completed node rest st).sendHead.nextCall = s.nextCall := by
  simp [Sys.completed]

/-- The command of the call completes. -/
theorem Sys.Calls.complete_eject (h : s.Calls o) (hp : s.Parts pre suf post) {c : Nat}
    (hq : s.sec.cmdQueue = ioctlNode c :: rest) (hrep : s.Reported (ioctlNode c) st)
    (hst : st.Final) : (s.completed (ioctlNode c) rest st).sendHead.Calls (some c) := by
  obtain ⟨hsec, hw, hn⟩ := s.completed_sendHead (ioctlNode c) rest st
  obtain ⟨hqueue, hflag, hstatus⟩ := completeHead_eject c s.sec rest hst
  have hne : ejects s.sec.cmdQueue = ioctlNode c :: ejects rest := by
    rw [hq, ejects_cons_ioctl rfl]
  cases h.phase with
  | free h1 =>
    rw [h1] at hne
    cases hne
  | reported c' st' h1 =>
    rw [h1] at hne
    cases hne
  | queued c' h1 h2 h3 h4 =>
    rw [h1] at hne
    obtain ⟨hcc, hrest⟩ := List.cons.inj hne
    cases hcc
    have hempty : ejects (s.completed (ioctlNode c) rest st).sec.cmdQueue = [] := by
      show ejects (completeHead s.sec (ioctlNode c) rest st).1.cmdQueue = []
      rw [hqueue, ← hrest]
    have hsame : ∀ c', historyOf (.ioctl c') (s.completed (ioctlNode c) rest st).sendHead.log =
        historyOf (.ioctl c') s.log := fun c' =>
      hrep.history_other hp hq (by rw [hempty]; exact List.not_mem_nil)
    refine h.update (.reported c st ?_ ?_ hst ?_ ?_) (fun _ hc => hc) hn
      (fun c' _ => hsame c') (fun _ _ _ => hrep.returned)
    · rw [hsec, hqueue, ← hrest]
    · rw [hsec, hflag]
    · rw [hsec, hstatus, h3]
    · rw [hw, hsame]
      refine h4.imp_right ?_
      rintro ⟨h5, hist, evs, h6, h7, h8⟩
      refine ⟨h5, ?_⟩
      rw [hq] at h7
      have hface := (Sys.headEvents_self (o := .ioctl c) rfl).mp h7
      rw [h8, hface.reported hrep, completions_append, h6, completions_exchange, if_pos hst]
      rfl

/-- What has happened to the head so far does not complete the call. -/
theorem Sys.HeadEvents.not_completed {c : Nat} {evs : List Event}
    (h : s.HeadEvents (.ioctl c) s.sec.cmdQueue evs) (hp : s.Parts pre suf post)
    (hq : s.sec.cmdQueue = node :: rest) (hrep : s.Reported node st)
    (hno : node.isIoctl = true → ¬ st.Final) : completions evs = [] := by
  rw [hq] at h
  by_cases how : node.owner = .ioctl c
  · have hnode := hp.eq_ioctlNode (by rw [hq]; exact List.mem_cons_self) how
    rw [((Sys.headEvents_self how).mp h).reported hrep, completions_exchange,
      if_neg (hno (by rw [hnode]; rfl))]
  · rw [(Sys.headEvents_other how).mp h]
    rfl

/-- Nothing changes for the calls, but the command of the call may be sent. -/
theorem Sys.Calls.complete_other (h : s.Calls o) (hp : s.Parts pre suf post)
    (hq : s.sec.cmdQueue = node :: rest) (hrep : s.Reported node st)
    (hno : node.isIoctl = true → ¬ st.Final) : (s.completed node rest st).sendHead.Calls o := by
  obtain ⟨hsec, hw, hn⟩ := s.completed_sendHead node rest st
  obtain ⟨e1, e2, e3⟩ := completeHead_not_eject hq hno
  have hejects : ejects (s.completed node rest st).sec.cmdQueue = ejects s.sec.cmdQueue := e1
  have hphase : (s.completed node rest st).sendHead.Phase o := by
    cases h.phase with
    | free h1 h2 h3 h4 =>
      exact .free (by rw [hsec, e1, h1]) (by rw [hsec, e2, h2]) (by rw [hw, h3])
        (by rw [hsec, e3, h4])
    | reported c st' h1 h2 h3 h4 h5 =>
      refine .reported c st' (by rw [hsec, e1, h1]) (by rw [hsec, e2, h2]) h3
        (by rw [hsec, e3, h4]) ?_
      rw [hw, hrep.history_other hp hq (by rw [hejects, h1]; exact List.not_mem_nil)]
      exact h5
    | queued c h1 h2 h3 h4 =>
      refine .queued c (by rw [hsec, e1, h1]) (by rw [hsec, e2, h2]) (by rw [hsec, e3, h3]) ?_
      rw [hw]
      refine h4.imp_right ?_
      rintro ⟨h5, hist, evs, h6, h7, h8⟩
      obtain ⟨evs', h9, h10⟩ := hrep.send_events rest c
      refine ⟨h5, hist ++ evs, evs', ?_, ?_, by rw [h10, h8]⟩
      · rw [completions_append, h6, h7.not_completed hp hq hrep hno]
        rfl
      · rw [hsec]
        exact h9
  refine h.update hphase (fun _ hc => hc) hn (fun c hc => ?_) (fun _ _ _ => hrep.returned)
  refine hrep.history_other hp hq fun hmem => ?_
  rw [hejects] at hmem
  exact h.phase.owner hp hc _ (List.mem_filter.mp hmem).1 rfl

/-- The handler deals with the result of the head. -/
theorem Sys.Calls.complete (h : s.Calls o) (hp : s.Parts pre suf post)
    (hq : s.sec.cmdQueue = node :: rest) (hrep : s.Reported node st) :
    ∃ o', (s.completed node rest st).sendHead.Calls o' := by
  by_cases hej : node.isIoctl = true ∧ st.Final
  · obtain ⟨c, rfl⟩ : ∃ c, node = ioctlNode c := by
      obtain ⟨pre', rfl, -⟩ := hp.head_ioctl hq hej.1
      exact hp.ioctlPre node List.mem_cons_self
    exact ⟨some c, h.complete_eject hp hq hrep hej.2⟩
  · exact ⟨o, h.complete_other hp hq hrep fun hio hst => hej ⟨hio, hst⟩⟩

end

/-- The commands of a request are linked. -/
theorem Sys.Calls.linkRequest (h : s.Calls o) {r : Nat} {nodes : List LstNode}
    (hb : BuiltFor r nodes) : (s.link nodes).Calls o := by
  have hown : ∀ c, ∀ n ∈ nodes, n.owner ≠ .ioctl c := fun c n hn => by
    simp [(hb.notIoctl n hn).2]
  have hl : ∀ c, historyOf (.ioctl c) (s.link nodes).log = historyOf (.ioctl c) s.log :=
    fun c => s.link_history (hown c)
  have hej : ejects (s.link nodes).sec.cmdQueue = ejects s.sec.cmdQueue := by
    rw [Sys.link_sec, ejects_append, hb.ejects, List.append_nil]
  refine h.update ?_ (fun _ hc => hc) (by simp) (fun c _ => hl c) (fun c _ code hret => hl c ▸ hret)
  cases h.phase with
  | free h1 h2 h3 h4 => exact .free (by rw [hej, h1]) (by simp [h2]) (by simp [h3]) (by simp [h4])
  | queued c h1 h2 h3 h4 =>
    refine .queued c (by rw [hej, h1]) (by simp [h2]) (by simp [h3]) ?_
    rw [Sys.link_waiters, hl]
    refine h4.imp_right ?_
    rintro ⟨h5, hist, evs, h6, h7, h8⟩
    exact ⟨h5, hist, evs, h6, h7.link (hown c), h8⟩
  | reported c st h1 h2 h3 h4 h5 =>
    refine .reported c st (by rw [hej, h1]) (by simp [h2]) h3 (by simp [h4]) ?_
    rw [Sys.link_waiters, hl]
    exact h5

/-- The device answers the command it executes. -/
theorem Sys.Calls.answers (h : s.Calls o) (hp : s.Parts pre suf post) {a : D.α} {dev : D.σ}
    {node : LstNode} {rest : List LstNode} {st : SectStatus}
    (ht : D.tick s.dev a = some (dev, some st)) (hq : s.sec.cmdQueue = node :: rest)
    (hexec : s.Executing node) : ({ s with dev := dev }.answer (some node) st).Calls o := by
  have hlog : ({ s with dev := dev }.answer (some node) st).log = s.log ++ [.answered node st] := rfl
  have hother : ∀ c, ioctlNode c ∉ ejects s.sec.cmdQueue →
      historyOf (.ioctl c) (s.log ++ [.answered node st]) = historyOf (.ioctl c) s.log := by
    intro c hc
    refine historyOf_concat (fun how => hc ?_) _
    exact hp.mem_ejects (n := node) (by rw [hq]; exact List.mem_cons_self) (by
      simpa [Event.about] using how)
  refine h.update ?_ (fun _ hc => hc) rfl (fun c hc => hother c fun hmem => ?_)
    (fun c _ code hret => ?_)
  · cases h.phase with
    | free h1 h2 h3 h4 => exact .free h1 h2 h3 h4
    | queued c h1 h2 h3 h4 =>
      refine .queued c h1 h2 h3 (h4.imp_right ?_)
      rintro ⟨h5, hist, evs, h6, h7, h8⟩
      rw [hq] at h7
      refine ⟨h5, hist, evs ++ historyOf (.ioctl c) [.answered node st], h6, ?_, ?_⟩
      · show Sys.HeadEvents _ _ s.sec.cmdQueue _
        rw [hq]
        exact h7.answer hexec ht
      · rw [hlog, historyOf_append, h8, List.append_assoc]
    | reported c st' h1 h2 h3 h4 h5 =>
      refine .reported c st' h1 h2 h3 h4 ?_
      rw [hlog, hother c (by rw [h1]; simp)]
      exact h5
  · exact h.phase.owner hp hc _ (List.mem_filter.mp hmem).1 rfl
  · rw [hlog, historyOf_append] at hret
    refine (List.mem_append.mp hret).resolve_right fun hmem => ?_
    have := (List.mem_filter.mp hmem).1
    simp at this

/-- A call that has the section to itself queues its command. -/
theorem Sys.Calls.enter (h : s.Calls o) (hf : s.Flow) (hp : s.Parts pre suf post)
    (halone : ejects s.sec.cmdQueue = [] ∧ s.sec.ioctlCmdDone = false) :
    Sys.Calls { s.linkEject with waiters := s.linkEject.waiters ++ [s.nextCall] }
      (some s.nextCall) := by
  have hphase := h.phase
  cases hphase with
  | queued c h1 =>
    rw [halone.1] at h1
    cases h1
  | reported c st h1 h2 =>
    rw [halone.2] at h2
    cases h2
  | free h1 h2 h3 h4 =>
    have hown : ∀ c, ∀ n ∈ s.sec.cmdQueue, n.owner ≠ .ioctl c := fun c =>
      h.phase.owner hp (by simp)
    obtain ⟨evs, h5, h6⟩ := Sys.link_events (o := .ioctl s.nextCall)
      (s := { s with
        nextCall := s.nextCall + 1
        sec := { s.sec with ejectionCmds := s.sec.ejectionCmds + 1 } })
      (fun hq => (hf.quiet hq).congr rfl rfl rfl rfl) (hown _) [ioctlNode s.nextCall]
    have hnew : historyOf (.ioctl s.nextCall) s.linkEject.log = evs := by
      rw [Sys.linkEject, h6, h.fresh _ (Nat.le_refl _), List.nil_append]
    have hother : ∀ c, c ≠ s.nextCall →
        historyOf (.ioctl c) s.linkEject.log = historyOf (.ioctl c) s.log := by
      intro c hc
      refine Sys.link_history _ fun n hn => ?_
      rw [List.mem_singleton.mp hn]
      simpa [ioctlNode] using hc.symm
    refine ⟨.queued _ ?_ ?_ ?_ (.inr ⟨?_, [], evs, rfl, ?_, ?_⟩), fun c hc => ?_, fun c hc => ?_,
      fun c code hc hret => ?_, fun c code hret hcode => ?_⟩
    · simp only [Sys.linkEject, Sys.link_sec, ejects_append, h1]
      rfl
    · simp [Sys.linkEject, h2]
    · simp [Sys.linkEject, h4]
    · simp [Sys.linkEject, h3]
    · simp only [Sys.linkEject, Sys.link_sec]
      exact h5.mono fun n hn => hn.congr rfl rfl rfl rfl rfl
    · exact hnew
    · cases hc
      simp [Sys.linkEject]
    · have hlt : s.nextCall + 1 ≤ c := by simpa [Sys.linkEject] using hc
      exact (hother c (by omega)).trans (h.fresh c (by omega))
    · cases hc
      rw [show historyOf _ _ = evs from hnew] at hret
      exact absurd hret (h5.not_returned _ _)
    · by_cases hc : c = s.nextCall
      · subst hc
        rw [show historyOf _ _ = evs from hnew] at hret
        exact absurd hret (h5.not_returned _ _)
      · rw [show historyOf _ _ = historyOf _ _ from hother c hc] at hret ⊢
        exact h.settled c code hret hcode

/-- The call in the section takes its completion. -/
theorem Sys.Calls.wake (h : s.Calls o) {c : Nat} (hc : c ∈ s.waiters)
    (hflag : s.sec.ioctlCmdDone = true) :
    Sys.Calls ({ s with waiters := s.waiters.erase c }.consume c) none := by
  have hphase := h.phase
  cases hphase with
  | free h1 h2 =>
    rw [hflag] at h2
    cases h2
  | queued c' h1 h2 =>
    rw [hflag] at h2
    cases h2
  | reported c' st h1 h2 h3 h4 h5 =>
    rcases h5 with h5 | ⟨h5, h6⟩
    · rw [h5] at hc
      cases hc
    · rw [h5, List.mem_singleton] at hc
      subst hc
      have hlog : ({ s with waiters := s.waiters.erase c }.consume c).log =
          s.log ++ [.returned c (if st = .done then 0 else - EIO)] := by
        simp only [Sys.consume, ejectConsume, h4]
        rcases h3 with rfl | rfl
        · rfl
        · rfl
      have hmine : historyOf (.ioctl c) ({ s with waiters := s.waiters.erase c }.consume c).log =
          historyOf (.ioctl c) s.log ++ [.returned c (if st = .done then 0 else - EIO)] := by
        rw [hlog, historyOf_concat_self rfl]
      have hother : ∀ c', c' ≠ c →
          historyOf (.ioctl c') ({ s with waiters := s.waiters.erase c }.consume c).log =
            historyOf (.ioctl c') s.log := by
        intro c' hc'
        rw [hlog]
        exact historyOf_concat (by simpa [Event.about] using hc'.symm) _
      refine ⟨.free h1 rfl (by simp [Sys.consume, h5]) rfl, by rintro _ ⟨⟩, fun c' hc' => ?_,
        (by rintro _ _ ⟨⟩), fun c' code hret hcode => ?_⟩
      · have hlt := h.bound c rfl
        have hle : s.nextCall ≤ c' := hc'
        rw [hother c' (by omega)]
        exact h.fresh c' hle
      · by_cases hcc : c' = c
        · subst hcc
          rw [hmine] at hret ⊢
          have hnot : .returned c' code ∉ historyOf (.ioctl c') s.log := by
            intro hold
            obtain ⟨hz, he⟩ := h.unanswered c' code rfl hold
            exact hcode.elim hz he
          have heq := List.mem_singleton.mp ((List.mem_append.mp hret).resolve_left hnot)
          cases heq
          exact ⟨_, st, rfl, h6, rfl⟩
        · rw [hother c' hcc] at hret ⊢
          exact h.settled c' code hret hcode

/-- A call that has not been answered returns without an answer. -/
theorem Sys.Calls.giveUp (h : s.Calls o) {c : Nat} {code : Int} (hz : code ≠ 0 ∧ code ≠ - EIO)
    (hun : ∀ v, .returned c v ∈ historyOf (.ioctl c) s.log → v ≠ 0 ∧ v ≠ - EIO)
    (hphase : s'.Phase o) (hc : c < s'.nextCall) (hn : s.nextCall ≤ s'.nextCall)
    (hlog : s'.log = s.log ++ [.returned c code]) : s'.Calls o := by
  have hmine : ∀ v, .returned c v ∈ historyOf (.ioctl c) s'.log → v ≠ 0 ∧ v ≠ - EIO := by
    intro v hret
    rw [hlog, historyOf_concat_self rfl] at hret
    rcases List.mem_append.mp hret with hret | hret
    · exact hun v hret
    · cases List.mem_singleton.mp hret
      exact hz
  have hother : ∀ c', c' ≠ c → historyOf (.ioctl c') s'.log = historyOf (.ioctl c') s.log := by
    intro c' hc'
    rw [hlog]
    exact historyOf_concat (by simpa [Event.about] using hc'.symm) _
  refine ⟨hphase, fun c' ho => ?_, fun c' hc' => ?_, fun c' v ho hret => ?_, fun c' v hret hv => ?_⟩
  · have := h.bound c' ho
    omega
  · rw [hother c' (by omega)]
    exact h.fresh c' (by omega)
  · by_cases hcc : c' = c
    · subst hcc
      exact hmine v hret
    · rw [hother c' hcc] at hret
      exact h.unanswered c' v ho hret
  · by_cases hcc : c' = c
    · subst hcc
      obtain ⟨h1, h2⟩ := hmine v hret
      exact (hv.elim h1 h2).elim
    · rw [hother c' hcc] at hret ⊢
      exact h.settled c' v hret hv

/-- A signal ends the wait of the call in the section. -/
theorem Sys.Calls.signal (h : s.Calls o) {c : Nat} (hc : c ∈ s.waiters)
    (hflag : s.sec.ioctlCmdDone = false) :
    Sys.Calls { s with
      waiters := s.waiters.erase c, log := s.log ++ [.returned c (-ERESTARTSYS)] } o := by
  have hphase := h.phase
  cases hphase with
  | free h1 h2 h3 =>
    rw [h3] at hc
    cases hc
  | reported c' st h1 h2 =>
    rw [hflag] at h2
    cases h2
  | queued c' h1 h2 h3 h4 =>
    rcases h4 with h4 | ⟨h4, -⟩
    · rw [h4] at hc
      cases hc
    · rw [h4, List.mem_singleton] at hc
      subst hc
      exact h.giveUp (by decide) (fun v => h.unanswered c v rfl)
        (.queued c h1 h2 h3 (.inl (by simp [h4]))) (h.bound c rfl) (Nat.le_refl _) rfl

/-- A call finds no memory for its command. -/
theorem Sys.Calls.oom (h : s.Calls o) :
    Sys.Calls { s with
      nextCall := s.nextCall + 1, log := s.log ++ [.returned s.nextCall (-ENOMEM)] } o := by
  have hfresh := h.fresh s.nextCall (Nat.le_refl _)
  refine h.giveUp (by decide) (fun v hret => ?_) ?_ (Nat.lt_succ_self _) (Nat.le_succ _) rfl
  · rw [hfresh] at hret
    cases hret
  · have hother : ∀ c, o = some c → historyOf (.ioctl c)
        (s.log ++ [.returned s.nextCall (-ENOMEM)]) = historyOf (.ioctl c) s.log := by
      intro c ho
      have hlt := h.bound c ho
      refine historyOf_concat ?_ _
      simp only [Event.about, ne_eq, Option.some.injEq, Owner.ioctl.injEq]
      omega
    have hphase := h.phase
    cases hphase with
    | free h1 h2 h3 h4 => exact .free h1 h2 h3 h4
    | queued c h1 h2 h3 h4 =>
      refine .queued c h1 h2 h3 (h4.imp_right ?_)
      rintro ⟨h5, hist, evs, h6, h7, h8⟩
      refine ⟨h5, hist, evs, h6,
        h7.mono fun n hn => hn.congr rfl rfl rfl rfl (by simp [lastReport_append, Event.report]), ?_⟩
      rw [← h8]
      exact hother c rfl
    | reported c st h1 h2 h3 h4 h5 =>
      refine .reported c st h1 h2 h3 h4 (h5.imp_right ?_)
      rintro ⟨h6, h7⟩
      refine ⟨h6, ?_⟩
      rw [← h7]
      exact congrArg _ (hother c rfl)

theorem calls_step {l : Label D} (h : s.Calls o) (hf : s.Flow) (hsh : s.Shaped)
    (hG : EntersAlone s l) (hs : s.Step l s') : ∃ o', s'.Calls o' := by
  obtain ⟨pre, suf, post, hp⟩ := hsh
  have hsame : ∀ {t : Sys D}, t.sec.cmdQueue = s.sec.cmdQueue →
      t.sec.ioctlCmdDone = s.sec.ioctlCmdDone → t.sec.ioctlStatus = s.sec.ioctlStatus →
      t.waiters = s.waiters → t.nextCall = s.nextCall → t.log = s.log →
      (∀ n evs, s.Facing n evs → t.Facing n evs) → ∃ o', t.Calls o' :=
    fun h1 h2 h3 h4 h5 h6 h7 => ⟨o, h.congr h1 h2 h3 h4 h5 (fun c => by rw [h6]) h7⟩
  cases hs with
  | submit write start env ho hi =>
    exact hsame rfl rfl rfl rfl rfl rfl fun n evs hfc => hfc.congr rfl rfl rfl rfl rfl
  | unsupported start env ho hi =>
    exact hsame rfl rfl rfl rfl rfl rfl fun n evs hfc => hfc.congr rfl rfl rfl rfl rfl
  | built r write start env st hsub hplan =>
    exact hsame rfl rfl rfl rfl rfl rfl fun n evs hfc => hfc.congr rfl rfl rfl rfl rfl
  | notBuilt r write start env e hsub hplan =>
    exact hsame rfl rfl rfl rfl rfl rfl fun n evs hfc => hfc.congr rfl rfl rfl rfl rfl
  | splice r nodes hsub =>
    have h' : Sys.Calls { s with log := s.log ++ [Event.queued r nodes] } o :=
      h.congr rfl rfl rfl rfl rfl (fun c => historyOf_concat (by simp [Event.about]) _)
        fun n evs hfc => hfc.congr rfl rfl rfl rfl (by simp [lastReport_append, Event.report])
    exact ⟨o, (h'.linkRequest (hp.built hsub)).congr rfl rfl rfl rfl rfl (fun _ => rfl)
      fun n evs hfc => hfc.congr rfl rfl rfl rfl rfl⟩
  | fail r status hsub =>
    refine ⟨o, h.congr rfl rfl rfl rfl rfl (fun c => ?_) fun n evs hfc =>
      hfc.congr rfl rfl rfl rfl (by split <;> simp [lastReport_append, Event.report])⟩
    split
    · simp
    · exact historyOf_concat (by simp [Event.about]) _
  | ejectOom => exact ⟨o, h.oom⟩
  | ejectReturn hflag =>
    rw [(hG rfl).2] at hflag
    cases hflag
  | ejectWait hflag => exact ⟨_, h.enter hf hp (hG rfl)⟩
  | wake c hc hflag => exact ⟨none, h.wake hc hflag⟩
  | signal c hc hflag => exact ⟨o, h.signal hc hflag⟩
  | snapshot hirq =>
    exact hsame rfl rfl rfl rfl rfl rfl fun n evs hfc => hfc.congr rfl rfl rfl rfl rfl
  | readStatus done error hirq =>
    exact hsame rfl rfl rfl rfl rfl rfl fun n evs hfc => hfc.congr rfl rfl rfl rfl rfl
  | nothing sn hirq hd he =>
    exact hsame rfl rfl rfl rfl rfl rfl fun n evs hfc => hfc.congr rfl rfl rfl rfl rfl
  | complete node rest st hirq hq hrep => exact h.complete hp hq hrep
  | goes a dev ht => exact hsame rfl rfl rfl rfl rfl rfl fun n evs hfc => hfc.goes ht
  | answers a dev node rest st ht hq hexec => exact ⟨o, h.answers hp ht hq hexec⟩
  | otherLine level =>
    exact hsame rfl rfl rfl rfl rfl rfl fun n evs hfc => hfc.congr rfl rfl rfl rfl rfl

theorem Sys.Initial.calls (h : s.Initial) : s.Calls none := by
  have hlog : ∀ c, historyOf (.ioctl c) s.log = [] := fun c => by rw [h.log]; rfl
  refine ⟨.free (by rw [h.queue]; rfl) h.flag h.waiters h.ioctlStatus, by rintro _ ⟨⟩,
    fun c _ => hlog c, by rintro _ _ ⟨⟩, fun c code hret => ?_⟩
  rw [hlog] at hret
  cases hret

/-- A call that returns 0 or `-EIO` does so after the command it queued has
completed, once, and it returns 0 if it completed with DONE and `-EIO` if it
completed with ERR_NO_TAPE. -/
theorem eject_answers_own_command (h : (system D).ReachOn EntersAlone s) {c : Nat} {code : Int}
    (hret : .returned c code ∈ s.log) (hcode : code = 0 ∨ code = - EIO) :
    ∃ l st, historyOf (.ioctl c) s.log = l ++ [.returned c code] ∧ completions l = [st] ∧
      code = if st = .done then 0 else - EIO := by
  have hcalls : ∃ o, s.Calls o := by
    refine Lts.invariantOn (M := system D) (P := fun s => ∃ o, s.Calls o)
      (fun s hi => ⟨none, Sys.Initial.calls hi⟩) (fun s l s' hr hp hg hs => ?_) h
    have hf : s.Flow := flow_reachOn (fun _ => Sys.Initial.flow) hr
    obtain ⟨o, ho⟩ := hp
    exact calls_step ho hf (shaped_reachOn hr) hg (Sys.next_step hf hs)
  obtain ⟨o, ho⟩ := hcalls
  exact ho.settled c code ((mem_historyOf rfl).mpr hret) hcode

end

/-- A call whose command is answered with ERR_NO_TAPE. -/
theorem eject_answers_no_tape :
    ∃ s : Sys anyDevice, (system anyDevice).ReachOn EntersAlone s ∧ .returned 0 (- EIO) ∈ s.log ∧
      ∃ l st, historyOf (.ioctl 0) s.log = l ++ [.returned 0 (- EIO)] ∧ completions l = [st] ∧
        - EIO = if st = .done then 0 else - EIO := by
  let rest : List (Label anyDevice) :=
    [.tick .errNoTape, .snapshot, .readStatus, .handle, .wake 0]
  let s := (freshSection.next (.eject false)).get (by decide +kernel)
  let s' := ((system anyDevice).exec s rest).get (by decide +kernel)
  have hs : freshSection.next (.eject false) = some s := (Option.some_get _).symm
  have hs' : (system anyDevice).exec s rest = some s' := (Option.some_get _).symm
  have hG : EntersAlone freshSection (.eject false) := fun _ => ⟨rfl, rfl⟩
  have hr : (system anyDevice).ReachOn EntersAlone s' := by
    refine Lts.ReachOn.exec (.step (.init freshSection_initial) hG hs) (fun l hl s hh => ?_) hs'
    subst hh
    simp [rest] at hl
  have hret : Event.returned 0 (- EIO) ∈ s'.log := by decide +kernel
  exact ⟨s', hr, hret, eject_answers_own_command hr hret (.inr rfl)⟩

/-- Two calls at once: the second one takes the completion of the first one's
command, and returns 0 before its own command has completed. -/
theorem eject_answers_for_other :
    ∃ s : Sys anyDevice, (system anyDevice).Reach s ∧ .returned 1 0 ∈ s.log ∧
      completions (historyOf (.ioctl 1) s.log) = [] ∧ ioctlNode 1 ∈ s.sec.cmdQueue := by
  let run : List (Label anyDevice) :=
    [.eject false, .eject false, .tick .done, .snapshot, .readStatus, .handle, .wake 1]
  let s := ((system anyDevice).exec freshSection run).get (by decide +kernel)
  have hs : (system anyDevice).exec freshSection run = some s := (Option.some_get _).symm
  exact ⟨s, Lts.reach_exec (.init freshSection_initial) hs, by decide +kernel, by decide +kernel,
    by decide +kernel⟩

end Zso.Tape

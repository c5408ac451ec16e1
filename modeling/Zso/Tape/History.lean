import Zso.Tape.Log
import Zso.Tape.QueueShape

/-!
# The history of a request

The events of a run that concern one request: its commands are queued, sent and
answered one after another, and the request is ended. `Sys.Recorded` says, for
every request, how far its history has got, and what the histories of the
requests that are over look like (`Closed`).

A request whose command is answered ERR_NO_TAPE goes on as if nothing had
happened. The invariant is for the runs in which this befalls EJECT commands
only (`Sys.EjectOnly`).
-/

namespace Zso.Tape
open Transition

variable {D : DevModel}

/-- The result of a command that does not count as a failure. -/
def Succeeds (p : LstNode × SectStatus) : Prop :=
  p.2 = .done ∨ p.2 = .errNoTape ∧ fieldCmd p.1.word = CMD_EJECT_TAPE

instance : DecidablePred Succeeds := fun p => by
  unfold Succeeds
  infer_instance

/-- The commands in the queue that belong to a request. -/
def commandsLeft (q : List LstNode) : List LstNode := q.filter fun n => !n.isIoctl

/-- The history of a request that is over. `lost` tells whether a request may be
forgotten. -/
inductive Closed (lost : Prop) (r : Nat) : List Event → Prop
  /-- the operation is not supported -/
  | unseen : Closed lost r []
  /-- the submission failed -/
  | rejected (st : BlkStatus) : st ≠ .ok → Closed lost r [.ended r st (some r)]
  | success (hist : List (LstNode × SectStatus)) :
      (∀ p ∈ hist, Succeeds p) →
      Closed lost r
        (.queued r (hist.map Prod.fst) :: (hist.flatMap exchange ++ [.ended r .ok (some r)]))
  | aborted (hist : List (LstNode × SectStatus)) (p : LstNode × SectStatus) (rest : List LstNode) :
      (∀ p ∈ hist, Succeeds p) → ¬ Succeeds p →
      Closed lost r
        (.queued r (hist.map Prod.fst ++ p.1 :: rest) ::
          ((hist ++ [p]).flatMap exchange ++ [.ended r .ioerr (some r)]))
  /-- the request is aborted and not ended -/
  | lost (hist : List (LstNode × SectStatus)) (p : LstNode × SectStatus) (rest : List LstNode) :
      lost → (∀ p ∈ hist, Succeeds p) → ¬ Succeeds p →
      Closed lost r
        (.queued r (hist.map Prod.fst ++ p.1 :: rest) :: (hist ++ [p]).flatMap exchange)

/-- The commands that have left the queue all succeeded, and the others are still
there. -/
def Sys.Active (s : Sys D) (r : Nat) : Prop :=
  ∃ (hist : List (LstNode × SectStatus)) (evs : List Event),
    s.built = hist.map Prod.fst ++ commandsLeft s.sec.cmdQueue ∧
    (∀ p ∈ hist, Succeeds p) ∧ s.HeadEvents (.request r) s.sec.cmdQueue evs ∧
    historyOf (.request r) s.log = .queued r s.built :: (hist.flatMap exchange ++ evs)

/-- How far the histories of all requests have got. `A r` is what is known of the
request `r` while its commands are in the queue. -/
structure Sys.Accounts (lost : Prop) (A : Nat → Prop) (s : Sys D) : Prop where
  bound : ∀ r, s.outstanding = some r → r < s.nextReq
  fresh : ∀ r, s.nextReq ≤ r → historyOf (.request r) s.log = []
  status : ∀ r st, s.submit = .failed r st → st ≠ .ok
  starting : s.submit ≠ .idle → ∀ r, s.outstanding = some r → historyOf (.request r) s.log = []
  active : commandsLeft s.sec.cmdQueue ≠ [] → ∀ r, s.outstanding = some r → A r
  closed : ∀ r,
    ¬ (s.outstanding = some r ∧ (s.submit ≠ .idle ∨ commandsLeft s.sec.cmdQueue ≠ [])) →
    Closed lost r (historyOf (.request r) s.log)

def Sys.Recorded (lost : Prop) (s : Sys D) : Prop := s.Accounts lost s.Active

/-- A command of a request for which the handler has read ERR_NO_TAPE is an EJECT. -/
def Sys.EjectOnly (s : Sys D) : Prop :=
  ∀ node rest done, s.sec.cmdQueue = node :: rest → node.isIoctl = false →
    s.irq = some ⟨done, true, some .errNoTape⟩ → fieldCmd node.word = CMD_EJECT_TAPE

/-- A command of a request for which the handler has read any other error has an
ioctl command behind it. -/
def Sys.EjectBehind (s : Sys D) : Prop :=
  ∀ node rest done st, s.sec.cmdQueue = node :: rest → node.isIoctl = false →
    s.irq = some ⟨done, true, some st⟩ → st ≠ .errNoTape → ∃ n ∈ rest, n.isIoctl = true

/-! ## Who owns the queue -/

section
variable {q q' : List LstNode} {n : LstNode} {r : Nat}

theorem IoctlNodes.owner_ne (h : IoctlNodes q) (r : Nat) : ∀ n ∈ q, n.owner ≠ .request r := by
  intro n hn
  obtain ⟨c, rfl⟩ := h n hn
  simp [ioctlNode]

theorem IoctlNodes.commandsLeft (h : IoctlNodes q) : commandsLeft q = [] :=
  List.filter_eq_nil_iff.mpr fun n hn => by simp [h.isIoctl n hn]

theorem commandsLeft_append (q q' : List LstNode) :
    commandsLeft (q ++ q') = commandsLeft q ++ commandsLeft q' := List.filter_append ..

theorem commandsLeft_cons_ioctl (h : n.isIoctl = true) (q : List LstNode) :
    commandsLeft (n :: q) = commandsLeft q := by
  simp [commandsLeft, h]

theorem commandsLeft_cons_request (h : n.isIoctl = false) (q : List LstNode) :
    commandsLeft (n :: q) = n :: commandsLeft q := by
  simp [commandsLeft, h]

theorem BuiltFor.commandsLeft (h : BuiltFor r q) (hs : q' <:+ q) : commandsLeft q' = q' :=
  List.filter_eq_self.mpr fun n hn => by simp [(h.notIoctl n (hs.mem hn)).1]

/-- The last command of a request is not an EJECT. -/
theorem BuiltFor.last_ne_eject (h : BuiltFor r (q ++ [n])) : fieldCmd n.word ≠ CMD_EJECT_TAPE := by
  obtain ⟨cs, hcs, heq⟩ := h
  obtain ⟨l', ls, rfl, -, hls⟩ := List.map_eq_append_iff.mp heq.symm
  obtain ⟨c, t, rfl, rfl, ht⟩ := List.map_eq_cons_iff.mp hls
  obtain rfl := List.map_eq_nil_iff.mp ht
  have hc : c ≠ .ejectTape := by
    rintro rfl
    exact hcs.getLast?_ne (by simp)
  show fieldCmd c.encode ≠ CMD_EJECT_TAPE
  rw [fieldCmd_encode]
  cases c with
  | takeTape t => exact (by decide : CMD_TAKE_TAPE ≠ CMD_EJECT_TAPE)
  | ejectTape => exact absurd rfl hc
  | rewind => decide
  | fastFwd n => exact (by decide : CMD_FAST_FWD ≠ CMD_EJECT_TAPE)
  | rw write off n =>
    show rwType write ≠ CMD_EJECT_TAPE
    cases write <;> decide

end

section
variable {s s' : Sys D} {pre suf post : List LstNode} {lost : Prop}

/-- What is queued of a request belongs to the outstanding one. -/
theorem Sys.Parts.owner (h : s.Parts pre suf post) (hc : commandsLeft s.sec.cmdQueue ≠ []) :
    ∃ r, s.submit = .idle ∧ s.outstanding = some r ∧ s.sec.req = some r ∧ BuiltFor r s.built ∧
      commandsLeft s.sec.cmdQueue = suf := by
  have hs : suf ≠ [] := by
    rintro rfl
    rw [h.nil.1] at hc
    exact hc h.ioctlPre.commandsLeft
  obtain ⟨hi, r, ho, hr, hb, -⟩ := h.request.queued hs
  refine ⟨r, hi, ho, hr, hb, ?_⟩
  rw [h.queue, commandsLeft_append, commandsLeft_append, h.ioctlPre.commandsLeft,
    h.ioctlPost.commandsLeft, hb.commandsLeft h.suffix, List.nil_append, List.append_nil]

/-- A request that is not outstanding, or has nothing left, owns no node. -/
theorem Sys.Parts.not_owner (h : s.Parts pre suf post) {r : Nat}
    (hr : ¬ (s.outstanding = some r ∧ commandsLeft s.sec.cmdQueue ≠ [])) :
    ∀ n ∈ s.sec.cmdQueue, n.owner ≠ .request r := by
  intro n hn how
  rw [h.queue, List.mem_append, List.mem_append] at hn
  rcases hn with (hn | hn) | hn
  · exact h.ioctlPre.owner_ne r n hn how
  · obtain ⟨-, r', ho, -, hb, -⟩ := h.request.queued (List.ne_nil_of_mem hn)
    obtain ⟨hio, how'⟩ := h.mem_suf hb n hn
    rw [how] at how'
    cases how'
    refine hr ⟨ho, List.ne_nil_of_mem (a := n) (List.mem_filter.mpr ⟨?_, by simp [hio]⟩)⟩
    rw [h.queue]
    simp [hn]
  · exact h.ioctlPost.owner_ne r n hn how

/-- While no request is outstanding, or one is being submitted, none is queued. -/
theorem Sys.Parts.none_left (h : s.Parts pre suf post)
    (hs : s.outstanding = none ∨ s.submit ≠ .idle) : commandsLeft s.sec.cmdQueue = [] := by
  by_contra hc
  obtain ⟨r, hi, ho, -⟩ := h.owner hc
  rcases hs with hs | hs
  · rw [hs] at ho
    cases ho
  · exact hs hi

/-! ## Steps that do not concern a request -/

theorem Sys.Active.congr {r : Nat} (h : s.Active r) (hq : s'.sec.cmdQueue = s.sec.cmdQueue)
    (hb : s'.built = s.built)
    (hl : historyOf (.request r) s'.log = historyOf (.request r) s.log)
    (hf : ∀ n evs, s.Facing n evs → s'.Facing n evs) : s'.Active r := by
  obtain ⟨hist, evs, h1, h2, h3, h4⟩ := h
  exact ⟨hist, evs, by rw [hb, hq, h1], h2, by rw [hq]; exact h3.mono (hf · evs), by
    rw [hl, h4, hb]⟩

theorem Sys.Recorded.congr (h : s.Recorded lost) (hq : s'.sec.cmdQueue = s.sec.cmdQueue)
    (hsub : s'.submit = s.submit) (ho : s'.outstanding = s.outstanding)
    (hn : s'.nextReq = s.nextReq) (hb : s'.built = s.built)
    (hl : ∀ r, historyOf (.request r) s'.log = historyOf (.request r) s.log)
    (hf : ∀ n evs, s.Facing n evs → s'.Facing n evs) : s'.Recorded lost := by
  refine ⟨by rw [ho, hn]; exact h.bound, fun r => ?_, by rw [hsub]; exact h.status,
    fun hs r => ?_, fun hc r hr => ?_, fun r => ?_⟩
  · rw [hn, hl]
    exact h.fresh r
  · rw [hsub] at hs
    rw [ho, hl]
    exact h.starting hs r
  · rw [hq] at hc
    rw [ho] at hr
    exact (h.active hc r hr).congr hq hb (hl r) hf
  · rw [ho, hsub, hq, hl]
    exact h.closed r

@[simp] theorem Sys.link_nextReq (s : Sys D) (nodes : List LstNode) :
    (s.link nodes).nextReq = s.nextReq := by
  unfold Sys.link
  split <;> simp

theorem Sys.Recorded.linkIoctl (h : s.Recorded lost) {q : List LstNode} (hq : IoctlNodes q) :
    (s.link q).Recorded lost := by
  have hl : ∀ r, historyOf (.request r) (s.link q).log = historyOf (.request r) s.log :=
    fun r => s.link_history (hq.owner_ne r)
  have hleft : commandsLeft (s.link q).sec.cmdQueue = commandsLeft s.sec.cmdQueue := by
    rw [Sys.link_sec, commandsLeft_append, hq.commandsLeft, List.append_nil]
  refine ⟨by simpa using h.bound, fun r => ?_, by simpa using h.status, fun hs r => ?_,
    fun hc r hr => ?_, fun r => ?_⟩
  · rw [Sys.link_nextReq, hl]
    exact h.fresh r
  · rw [Sys.link_submit] at hs
    rw [Sys.link_outstanding, hl]
    exact h.starting hs r
  · rw [hleft] at hc
    rw [Sys.link_outstanding] at hr
    obtain ⟨hist, evs, h1, h2, h3, h4⟩ := h.active hc r hr
    exact ⟨hist, evs, by rw [Sys.link_built, hleft, h1], h2, h3.link (hq.owner_ne r),
      by rw [Sys.link_built, hl, h4]⟩
  · rw [Sys.link_outstanding, Sys.link_submit, hleft, hl]
    exact h.closed r

theorem Sys.Recorded.linkEject (h : s.Recorded lost) : s.linkEject.Recorded lost := by
  have h' : Sys.Recorded lost { s with
      nextCall := s.nextCall + 1
      sec := { s.sec with ejectionCmds := s.sec.ejectionCmds + 1 } } :=
    h.congr rfl rfl rfl rfl rfl (fun _ => rfl) fun n evs hf => hf.congr rfl rfl rfl rfl rfl
  exact h'.linkIoctl (.single _)

theorem Sys.Recorded.consume (h : s.Recorded lost) (c : Nat) : (s.consume c).Recorded lost :=
  h.congr rfl rfl rfl rfl rfl (fun r => historyOf_concat (by simp [Event.about]) _) fun n evs hf =>
    hf.congr rfl rfl rfl rfl (by simp [Sys.consume, lastReport_append, Event.report])

/-! ## Submission -/

/-- A submission starts. -/
theorem Sys.Recorded.submit (h : s.Recorded lost) (hp : s.Parts pre suf post)
    (ho : s.outstanding = none) (hst : ∀ r st, s'.submit = .failed r st → st ≠ .ok)
    (ho' : s'.outstanding = some s.nextReq) (hn : s'.nextReq = s.nextReq + 1)
    (hq : s'.sec.cmdQueue = s.sec.cmdQueue) (hl : s'.log = s.log) : s'.Recorded lost := by
  have hleft : commandsLeft s'.sec.cmdQueue = [] := by
    rw [hq]
    exact hp.none_left (.inl ho)
  refine ⟨fun r hr => ?_, fun r hr => ?_, hst, fun _ r hr => ?_, fun hc => absurd hleft hc,
    fun r hr => ?_⟩
  · rw [ho'] at hr
    obtain rfl := Option.some.inj hr
    rw [hn]
    exact Nat.lt_succ_self _
  · rw [hl]
    exact h.fresh r (by omega)
  · rw [ho'] at hr
    obtain rfl := Option.some.inj hr
    rw [hl]
    exact h.fresh _ (Nat.le_refl _)
  · rw [hl]
    refine h.closed r ?_
    simp [ho]

/-- The submission goes on. -/
theorem Sys.Recorded.submitting (h : s.Recorded lost) (hp : s.Parts pre suf post)
    (hsub : s.submit ≠ .idle) (hsub' : s'.submit ≠ .idle)
    (hst : ∀ r st, s'.submit = .failed r st → st ≠ .ok)
    (ho : s'.outstanding = s.outstanding) (hn : s'.nextReq = s.nextReq)
    (hq : s'.sec.cmdQueue = s.sec.cmdQueue) (hl : s'.log = s.log) : s'.Recorded lost := by
  have hleft : commandsLeft s'.sec.cmdQueue = [] := by
    rw [hq]
    exact hp.none_left (.inr hsub)
  refine ⟨by rw [ho, hn]; exact h.bound, by rw [hn, hl]; exact h.fresh, hst,
    fun _ => by rw [ho, hl]; exact h.starting hsub, fun hc => absurd hleft hc, fun r hr => ?_⟩
  rw [hl]
  refine h.closed r fun hh => hr ⟨by rw [ho]; exact hh.1, .inl hsub'⟩

/-- The outstanding request `r` is over in `s'`. -/
theorem Sys.Recorded.over (h : s.Recorded lost) {A : Nat → Prop} {r : Nat}
    (ho : s.outstanding = some r) (hsub : s'.submit = .idle) (hn : s'.nextReq = s.nextReq)
    (ho' : s'.outstanding = none ∨ s'.outstanding = s.outstanding)
    (hleft : commandsLeft s'.sec.cmdQueue = [])
    (hother : ∀ r', r' ≠ r → historyOf (.request r') s'.log = historyOf (.request r') s.log)
    (hclosed : Closed lost r (historyOf (.request r) s'.log)) : s'.Accounts lost A := by
  refine ⟨fun r' hr' => ?_, fun r' hr' => ?_, fun r' st hst => ?_, fun hs => absurd hsub hs,
    fun hc => absurd hleft hc, fun r' _ => ?_⟩
  · rcases ho' with ho' | ho'
    · rw [ho'] at hr'
      cases hr'
    · rw [hn]
      exact h.bound r' (by rw [← ho', hr'])
  · rw [hn] at hr'
    have hlt := h.bound r ho
    rw [hother r' (by omega)]
    exact h.fresh r' hr'
  · rw [hsub] at hst
    cases hst
  · by_cases hr : r' = r
    · rw [hr]
      exact hclosed
    · rw [hother r' hr]
      refine h.closed r' ?_
      rw [ho]
      simp [Ne.symm hr]

/-- The submission fails. -/
theorem Sys.Recorded.fail (h : s.Recorded lost) (hp : s.Parts pre suf post) {r : Nat}
    {status : BlkStatus} (hsub : s.submit = .failed r status) :
    Sys.Recorded lost
      { s with
        sec := { s.sec with req := none }, submit := .idle, outstanding := none
        log := s.log ++ if s.sec.req = none then [] else [.ended r status s.sec.req] } := by
  have hidle : s.submit ≠ .idle := by simp [hsub]
  have hreq := hp.request
  simp only [Sys.RequestOk, hsub] at hreq
  obtain ⟨-, ho, hr⟩ := hreq
  have hold : historyOf (.request r) s.log = [] := h.starting hidle r ho
  rcases hr with hr | hr
  · simp only [hr, if_true, List.append_nil]
    exact h.over ho rfl rfl (.inl rfl) (hp.none_left (.inr hidle)) (fun _ _ => rfl)
      (by rw [hold]; exact .unseen)
  · simp only [hr, reduceCtorEq, if_false]
    refine h.over ho rfl rfl (.inl rfl) (hp.none_left (.inr hidle)) (fun r' hr' => ?_) ?_
    · exact historyOf_concat (by simpa [Event.about] using hr'.symm) _
    · rw [historyOf_concat_self rfl, hold]
      exact .rejected status (h.status r status hsub)

/-- The commands of the request are linked. -/
theorem Sys.Recorded.splice (h : s.Recorded lost) (hf : s.Flow) (hp : s.Parts pre suf post)
    {r : Nat} {nodes : List LstNode} (hsub : s.submit = .built r nodes) :
    Sys.Recorded lost
      { { s with log := s.log ++ [Event.queued r nodes] }.link nodes with
        submit := .idle, built := nodes } := by
  have hreq := hp.request
  simp only [Sys.RequestOk, hsub] at hreq
  obtain ⟨rfl, ho, -, hb⟩ := hreq
  have hcl : commandsLeft s.sec.cmdQueue = [] := hp.none_left (.inr (by simp [hsub]))
  have hleft : commandsLeft (s.sec.cmdQueue ++ nodes) = nodes := by
    rw [commandsLeft_append, hcl, hb.commandsLeft (List.suffix_refl _), List.nil_append]
  have hold : historyOf (.request r) s.log = [] := h.starting (by simp [hsub]) r ho
  obtain ⟨evs, h1, h2⟩ := Sys.link_events (o := .request r)
    (s := { s with log := s.log ++ [Event.queued r nodes] })
    (fun hq => (hf.quiet hq).congr rfl rfl rfl rfl)
    (hp.not_owner fun hh => hh.2 hcl) nodes
  simp only [historyOf_concat_self (e := .queued r nodes) rfl, hold, List.nil_append,
    List.singleton_append] at h2
  have h3 : ∀ r', r' ≠ r →
      historyOf (.request r') ({ s with log := s.log ++ [Event.queued r nodes] }.link nodes).log =
        historyOf (.request r') s.log := by
    intro r' hr'
    rw [Sys.link_history _ fun n hn => by simpa [(hb.notIoctl n hn).2] using hr'.symm]
    exact historyOf_concat (by simpa [Event.about] using hr'.symm) _
  refine ⟨by simpa using h.bound, fun r' hr' => ?_, by rintro r' st ⟨⟩,
    fun hs => absurd rfl hs, fun _ r' hr' => ?_, fun r' hr' => ?_⟩
  · have hne : r' ≠ r := by
      rintro rfl
      have hlt := h.bound _ ho
      have hle : s.nextReq ≤ r' := by simpa using hr'
      omega
    exact (h3 r' hne).trans (h.fresh r' (by simpa using hr'))
  · have hr : r' = r := by
      have hsome : s.outstanding = some r' := by simpa using hr'
      rw [ho] at hsome
      exact (Option.some.inj hsome).symm
    subst hr
    refine ⟨[], evs, ?_, by simp, ?_, ?_⟩
    · simp [hleft]
    · simp only [Sys.link_sec]
      exact h1.mono fun m hm => hm.congr rfl rfl rfl rfl rfl
    · simpa using h2
  · have hne : r' ≠ r := by
      rintro rfl
      refine hr' ⟨by simpa using ho, .inr ?_⟩
      simp [hleft, hb.ne_nil]
    show Closed lost r' (historyOf _ _)
    rw [h3 r' hne]
    refine h.closed r' ?_
    rw [ho]
    simp [hne.symm]

/-! ## The handler -/

/-- Between two commands of the request: nothing has happened to the head yet. -/
def Sys.Between (s : Sys D) (r : Nat) : Prop :=
  ∃ hist : List (LstNode × SectStatus),
    s.built = hist.map Prod.fst ++ commandsLeft s.sec.cmdQueue ∧ (∀ p ∈ hist, Succeeds p) ∧
    historyOf (.request r) s.log = .queued r s.built :: hist.flatMap exchange

/-- The next command is sent. -/
theorem Sys.Accounts.sendHead (h : s.Accounts lost s.Between) (hp : s.Parts pre suf post)
    (hquiet : s.Quiet) : s.sendHead.Recorded lost := by
  have hq : s.sendHead.sec.cmdQueue = s.sec.cmdQueue := by simp
  have hb : s.sendHead.built = s.built := by simp
  have ho : s.sendHead.outstanding = s.outstanding := by simp
  have hn : s.sendHead.nextReq = s.nextReq := by simp
  have hsub : s.sendHead.submit = s.submit := by simp
  -- only the request whose commands are queued is concerned
  have hother : ∀ r, ¬ (s.outstanding = some r ∧ commandsLeft s.sec.cmdQueue ≠ []) →
      historyOf (.request r) s.sendHead.log = historyOf (.request r) s.log := by
    intro r hr
    obtain ⟨evs, h1, h2⟩ := hquiet.sendOpt_events (.request r) s.sec.cmdQueue
    rw [h1.eq_nil (hp.not_owner hr), List.append_nil] at h2
    exact h2
  refine ⟨by rw [ho, hn]; exact h.bound, fun r hr => ?_, by rw [hsub]; exact h.status,
    fun hs r hr => ?_, fun hc r hr => ?_, fun r hr => ?_⟩
  · rw [hn] at hr
    rw [hother r fun hh => absurd (h.bound r hh.1) (by omega)]
    exact h.fresh r hr
  · rw [hsub] at hs
    rw [ho] at hr
    rw [hother r fun hh => hh.2 (hp.none_left (.inr hs))]
    exact h.starting hs r hr
  · rw [hq] at hc
    rw [ho] at hr
    obtain ⟨hist, h1, h2, h3⟩ := h.active hc r hr
    obtain ⟨evs, hev, hlog⟩ := hquiet.sendOpt_events (.request r) s.sec.cmdQueue
    refine ⟨hist, evs, by rw [hb, hq, h1], h2, by rw [hq]; exact hev, ?_⟩
    rw [hb]
    exact hlog.trans (by rw [h3, List.cons_append])
  · rw [ho, hsub, hq] at hr
    rw [hother r fun hh => hr ⟨hh.1, .inr hh.2⟩]
    exact h.closed r hr

/-- An ioctl command is dealt with. -/
theorem Sys.Recorded.completeIoctl (h : s.Recorded lost) (hp : s.Parts pre suf post)
    {node : LstNode} {rest : List LstNode} {st : SectStatus} (hq : s.sec.cmdQueue = node :: rest)
    (hio : node.isIoctl = true) :
    (s.completed node rest st).Accounts lost (s.completed node rest st).Between := by
  obtain ⟨hev, -, hqueue⟩ := completeHead_ioctl hio s.sec rest st
  have hlog : (s.completed node rest st).log = s.log := by simp [Sys.completed, hev]
  have ho : (s.completed node rest st).outstanding = s.outstanding := by simp [Sys.completed, hev]
  have hleft : commandsLeft (s.completed node rest st).sec.cmdQueue =
      commandsLeft s.sec.cmdQueue := by
    show commandsLeft (completeHead s.sec node rest st).1.cmdQueue = _
    rw [hqueue]
    split
    · rw [hq, commandsLeft_cons_ioctl hio]
    · rfl
  refine ⟨by rw [ho]; exact h.bound, by rw [hlog]; exact h.fresh, h.status,
    by rw [ho, hlog]; exact h.starting, fun hc r hr => ?_, by rw [ho, hlog, hleft]; exact h.closed⟩
  rw [hleft] at hc
  rw [ho] at hr
  obtain ⟨hist, evs, h1, h2, h3, h4⟩ := h.active hc r hr
  have hnode : node.owner ≠ .request r := by
    obtain ⟨pre', rfl, -⟩ := hp.head_ioctl hq hio
    exact hp.ioctlPre.owner_ne r node List.mem_cons_self
  rw [hq, Sys.headEvents_other hnode] at h3
  subst h3
  exact ⟨hist, by rw [hleft]; exact h1, h2, by rw [hlog, h4, List.append_nil]; rfl⟩

/-- The request `r` has got to the result `p` of the command at the head; `suf` are
its commands behind it. -/
structure Sys.AtCommand (s : Sys D) (r : Nat) (hist : List (LstNode × SectStatus))
    (p : LstNode × SectStatus) (suf post : List LstNode) : Prop where
  queue : s.sec.cmdQueue = p.1 :: (suf ++ post)
  notIoctl : p.1.isIoctl = false
  idle : s.submit = .idle
  outstanding : s.outstanding = some r
  req : s.sec.req = some r
  built : BuiltFor r s.built
  split : s.built = hist.map Prod.fst ++ p.1 :: suf
  left : ∀ n ∈ suf, n.isIoctl = false
  ioctl : IoctlNodes post
  succeeds : ∀ p ∈ hist, Succeeds p
  history : historyOf (.request r) s.log =
    .queued r s.built :: (hist ++ [p]).flatMap exchange

theorem Sys.Recorded.atCommand (h : s.Recorded lost) (hp : s.Parts pre suf post) {node : LstNode}
    {rest : List LstNode} {st : SectStatus} (hq : s.sec.cmdQueue = node :: rest)
    (hio : node.isIoctl = false) (hrep : s.Reported node st) :
    ∃ r hist suf', rest = suf' ++ post ∧ s.AtCommand r hist (node, st) suf' post := by
  obtain ⟨rfl, suf', rfl, rfl⟩ := hp.head_request hq hio
  have hc : commandsLeft s.sec.cmdQueue ≠ [] := by
    rw [hq, commandsLeft_cons_request hio]
    simp
  obtain ⟨r, hi, ho, hr, hb, hleft⟩ := hp.owner hc
  obtain ⟨hist, evs, h1, h2, h3, h4⟩ := h.active hc r ho
  have hmem := hp.mem_suf hb
  rw [hq, Sys.headEvents_self (hmem node List.mem_cons_self).2] at h3
  rw [h3.reported hrep] at h4
  rw [hleft] at h1
  exact ⟨r, hist, suf', rfl, hq, hio, hi, ho, hr, hb, h1,
    fun m hm => (hmem m (List.mem_cons_of_mem _ hm)).1, hp.ioctlPost, h2, by rw [h4]; simp⟩

section
variable {r : Nat} {hist : List (LstNode × SectStatus)} {node : LstNode} {st : SectStatus}

theorem Sys.AtCommand.commandsLeft (h : s.AtCommand r hist (node, st) suf post) :
    commandsLeft (suf ++ post) = suf := by
  rw [commandsLeft_append, h.ioctl.commandsLeft, List.append_nil]
  exact List.filter_eq_self.mpr fun m hm => by simp [h.left m hm]

/-- What `_end_request_helper` adds to the log. -/
theorem Sys.AtCommand.ended (h : s.AtCommand r hist (node, st) suf post) (v : BlkStatus) :
    (∀ r', r' ≠ r → historyOf (.request r') (s.log ++ [.ended r v (some r)]) =
      historyOf (.request r') s.log) ∧
    historyOf (.request r) (s.log ++ [.ended r v (some r)]) =
      .queued r (hist.map Prod.fst ++ node :: suf) ::
        ((hist ++ [(node, st)]).flatMap exchange ++ [.ended r v (some r)]) := by
  refine ⟨fun r' hr' => historyOf_concat (by simpa [Event.about] using hr'.symm) _, ?_⟩
  rw [historyOf_concat_self rfl, h.history, h.split, List.cons_append]

/-- The last command is done. -/
theorem Sys.AtCommand.last (hc : s.AtCommand r hist (node, .done) [] post) (h : s.Recorded lost)
    {A : Nat → Prop} : (s.completed node ([] ++ post) .done).Accounts lost A := by
  have hlast : lastOfRequest node ([] ++ post) = true :=
    lastOfRequest_append hc.notIoctl hc.left hc.ioctl
  have hev : (completeHead s.sec node ([] ++ post) .done).2 = [.ended r .ok (some r)] := by
    simp only [completeHead, hlast, if_true, hc.req, endEvents]
  have hlog : (s.completed node ([] ++ post) .done).log = s.log ++ [.ended r .ok (some r)] := by
    simp only [Sys.completed, hev]
  obtain ⟨hother, hmine⟩ := hc.ended .ok
  refine h.over hc.outstanding hc.idle rfl (.inl ?_) hc.ioctl.commandsLeft
    (by rw [hlog]; exact hother) ?_
  · simp only [Sys.completed, hev]
    rfl
  · have hmap : hist.map Prod.fst ++ [node] = (hist ++ [(node, SectStatus.done)]).map Prod.fst := by
      simp
    rw [hlog, hmine, hmap]
    refine .success _ fun p hp => ?_
    rcases List.mem_append.mp hp with hp | hp
    · exact hc.succeeds p hp
    · rw [List.mem_singleton.mp hp]
      exact .inl rfl

/-- A command succeeds and there are more. -/
theorem Sys.AtCommand.next (hc : s.AtCommand r hist (node, st) suf post) (h : s.Recorded lost)
    (hsuc : Succeeds (node, st)) (hne : suf ≠ []) :
    (s.completed node (suf ++ post) st).Accounts lost
      (s.completed node (suf ++ post) st).Between := by
  have hlast : lastOfRequest node (suf ++ post) = false := by
    rw [lastOfRequest_append hc.notIoctl hc.left hc.ioctl]
    simpa using hne
  have hkeep : (completeHead s.sec node (suf ++ post) st).2 = [] ∧
      (completeHead s.sec node (suf ++ post) st).1.cmdQueue = suf ++ post := by
    rcases hsuc with hst | ⟨hst, -⟩
    · simp only at hst
      subst hst
      simp [completeHead, hlast]
    · simp only at hst
      subst hst
      simp [completeHead]
  have hlog : (s.completed node (suf ++ post) st).log = s.log := by simp [Sys.completed, hkeep.1]
  have ho : (s.completed node (suf ++ post) st).outstanding = s.outstanding := by
    simp [Sys.completed, hkeep.1]
  have hleft : Zso.Tape.commandsLeft (s.completed node (suf ++ post) st).sec.cmdQueue = suf :=
    (congrArg _ hkeep.2).trans hc.commandsLeft
  refine ⟨by rw [ho]; exact h.bound, by rw [hlog]; exact h.fresh, h.status,
    by rw [ho, hlog]; exact h.starting, fun _ r' hr' => ?_, fun r' hr' => ?_⟩
  · rw [ho, hc.outstanding] at hr'
    obtain rfl := Option.some.inj hr'
    refine ⟨hist ++ [(node, st)], ?_, fun p hp => ?_, by rw [hlog, hc.history]; rfl⟩
    · rw [hleft]
      show s.built = _
      rw [hc.split]
      simp
    · rcases List.mem_append.mp hp with hp | hp
      · exact hc.succeeds p hp
      · rw [List.mem_singleton.mp hp]
        exact hsuc
  · rw [hlog]
    rw [ho, hleft] at hr'
    exact h.closed r' fun hh => hr' ⟨hh.1, .inr hne⟩

/-- A command fails, and the request is aborted. -/
theorem Sys.AtCommand.abort (hc : s.AtCommand r hist (node, st) suf post) (h : s.Recorded lost)
    (hd : st ≠ .done) (hn : st ≠ .errNoTape) (hlost : post = [] → lost) {A : Nat → Prop} :
    (s.completed node (suf ++ post) st).Accounts lost A := by
  have hfail : ¬ Succeeds (node, st) := by
    rintro (hst | ⟨hst, -⟩)
    · exact hd hst
    · exact hn hst
  have hfrom : fromIoctl (suf ++ post) = post := fromIoctl_append hc.left hc.ioctl
  have hqueue : (s.completed node (suf ++ post) st).sec.cmdQueue = post := by
    simp [Sys.completed, completeHead, hd, hn, hc.notIoctl, hfrom]
  have hcl : Zso.Tape.commandsLeft (s.completed node (suf ++ post) st).sec.cmdQueue = [] := by
    rw [hqueue]
    exact hc.ioctl.commandsLeft
  have hev : (completeHead s.sec node (suf ++ post) st).2 =
      if post = [] then [] else [.ended r .ioerr (some r)] := by
    simp [completeHead, hd, hn, hc.notIoctl, hfrom, endEvents, hc.req]
  by_cases hpost : post = []
  · rw [if_pos hpost] at hev
    have hlog : (s.completed node (suf ++ post) st).log = s.log := by simp [Sys.completed, hev]
    refine h.over hc.outstanding hc.idle rfl (.inr ?_) hcl (by rw [hlog]; exact fun _ _ => rfl) ?_
    · simp [Sys.completed, hev]
    · rw [hlog, hc.history, hc.split]
      exact .lost hist (node, st) suf (hlost hpost) hc.succeeds hfail
  · rw [if_neg hpost] at hev
    have hlog : (s.completed node (suf ++ post) st).log = s.log ++ [.ended r .ioerr (some r)] := by
      simp [Sys.completed, hev]
    obtain ⟨hother, hmine⟩ := hc.ended .ioerr
    refine h.over hc.outstanding hc.idle rfl (.inl ?_) hcl (by rw [hlog]; exact hother) ?_
    · simp [Sys.completed, hev, Event.endsRequest]
    · rw [hlog, hmine]
      exact .aborted hist (node, st) suf hc.succeeds hfail

end

/-- A command of the request is dealt with. -/
theorem Sys.Recorded.completeRequest (h : s.Recorded lost) (hp : s.Parts pre suf post)
    {node : LstNode} {rest : List LstNode} {st : SectStatus} (hq : s.sec.cmdQueue = node :: rest)
    (hio : node.isIoctl = false) (hirq : s.irq = some ⟨!st.isErr, st.isErr, some st⟩)
    (hrep : s.Reported node st) (heo : s.EjectOnly) (hlost : lost ∨ s.EjectBehind) :
    (s.completed node rest st).Accounts lost (s.completed node rest st).Between := by
  obtain ⟨r, hist, suf', rfl, hc⟩ := h.atCommand hp hq hio hrep
  by_cases hd : st = .done
  · subst hd
    by_cases hs : suf' = []
    · subst hs
      exact hc.last h
    · exact hc.next h (.inl rfl) hs
  · by_cases hn : st = .errNoTape
    · subst hn
      have hej := heo node _ _ hq hio hirq
      refine hc.next h (.inr ⟨rfl, hej⟩) ?_
      rintro rfl
      have hb := hc.built
      rw [hc.split] at hb
      exact hb.last_ne_eject hej
    · refine hc.abort h hd hn fun hpost => hlost.resolve_right fun heb => ?_
      rw [hrep.final.resolve_right hd] at hirq
      obtain ⟨m, hm, hmio⟩ := heb node _ _ st hq hio hirq hn
      rw [hpost, List.append_nil] at hm
      rw [hc.left m hm] at hmio
      cases hmio

/-! ## The invariant -/

/-- The device answers the command it executes. -/
theorem Sys.Recorded.answers (h : s.Recorded lost) (hp : s.Parts pre suf post) {a : D.α}
    {dev : D.σ} {node : LstNode} {rest : List LstNode} {st : SectStatus}
    (ht : D.tick s.dev a = some (dev, some st)) (hq : s.sec.cmdQueue = node :: rest)
    (hexec : s.Executing node) :
    Sys.Recorded lost ({ s with dev := dev }.answer (some node) st) := by
  have hlog : ({ s with dev := dev }.answer (some node) st).log = s.log ++ [.answered node st] := rfl
  have hother : ∀ r, ¬ (s.outstanding = some r ∧ commandsLeft s.sec.cmdQueue ≠ []) →
      historyOf (.request r) (s.log ++ [.answered node st]) = historyOf (.request r) s.log := by
    intro r hr
    refine historyOf_concat ?_ _
    simpa [Event.about] using hp.not_owner hr node (by rw [hq]; exact List.mem_cons_self)
  refine ⟨h.bound, fun r hr => ?_, h.status, fun hs r hr => ?_, fun hc r hr => ?_, fun r hr => ?_⟩
  · have hle : s.nextReq ≤ r := hr
    rw [hlog, hother r fun hh => absurd (h.bound r hh.1) (by omega)]
    exact h.fresh r hr
  · rw [hlog, hother r fun hh => hh.2 (hp.none_left (.inr hs))]
    exact h.starting hs r hr
  · obtain ⟨hist, evs, h1, h2, h3, h4⟩ := h.active hc r hr
    rw [hq] at h3
    refine ⟨hist, evs ++ historyOf (.request r) [.answered node st], h1, h2, ?_, ?_⟩
    · show Sys.HeadEvents _ _ s.sec.cmdQueue _
      rw [hq]
      exact h3.answer hexec ht
    · rw [hlog, historyOf_append, h4, List.cons_append, List.append_assoc]
      rfl
  · rw [hlog, hother r fun hh => hr ⟨hh.1, .inr hh.2⟩]
    exact h.closed r hr

theorem recorded_step {l : Label D} (h : s.Recorded lost) (hf : s.Flow) (hsh : s.Shaped)
    (heo : l = .handle → s.EjectOnly) (hlost : l = .handle → lost ∨ s.EjectBehind)
    (hs : s.Step l s') : s'.Recorded lost := by
  obtain ⟨pre, suf, post, hp⟩ := hsh
  have hreturned : ∀ c code r, historyOf (.request r) (s.log ++ [.returned c code]) =
      historyOf (.request r) s.log :=
    fun c code r => historyOf_concat (by simp [Event.about]) _
  cases hs with
  | submit write start env ho hi => exact h.submit hp ho (by rintro _ _ ⟨⟩) rfl rfl rfl rfl
  | unsupported start env ho hi =>
    refine h.submit hp ho (fun r st hst => ?_) rfl rfl rfl rfl
    cases hst
    decide
  | built r write start env st hsub hplan =>
    exact h.submitting hp (by simp [hsub]) (by simp) (by rintro _ _ ⟨⟩) rfl rfl rfl rfl
  | notBuilt r write start env e hsub hplan =>
    refine h.submitting hp (by simp [hsub]) (by simp) (fun r' st hst => ?_) rfl rfl rfl rfl
    cases hst
    exact planRequest_error hplan
  | splice r nodes hsub => exact h.splice hf hp hsub
  | fail r status hsub => exact h.fail hp hsub
  | ejectOom =>
    exact h.congr rfl rfl rfl rfl rfl (hreturned _ _) fun n evs hfc =>
      hfc.congr rfl rfl rfl rfl (by simp [lastReport_append, Event.report])
  | ejectReturn hflag => exact h.linkEject.consume _
  | ejectWait hflag =>
    exact h.linkEject.congr rfl rfl rfl rfl rfl (fun _ => rfl) fun n evs hfc =>
      hfc.congr rfl rfl rfl rfl rfl
  | wake c hc hflag =>
    have h' : Sys.Recorded lost { s with waiters := s.waiters.erase c } :=
      h.congr rfl rfl rfl rfl rfl (fun _ => rfl) fun n evs hfc => hfc.congr rfl rfl rfl rfl rfl
    exact h'.consume c
  | signal c hc hflag =>
    exact h.congr rfl rfl rfl rfl rfl (hreturned _ _) fun n evs hfc =>
      hfc.congr rfl rfl rfl rfl (by simp [lastReport_append, Event.report])
  | snapshot hirq =>
    exact h.congr rfl rfl rfl rfl rfl (fun _ => rfl) fun n evs hfc => hfc.congr rfl rfl rfl rfl rfl
  | readStatus done error hirq =>
    exact h.congr rfl rfl rfl rfl rfl (fun _ => rfl) fun n evs hfc => hfc.congr rfl rfl rfl rfl rfl
  | nothing sn hirq hd he =>
    exact h.congr rfl rfl rfl rfl rfl (fun _ => rfl) fun n evs hfc => hfc.congr rfl rfl rfl rfl rfl
  | complete node rest st hirq hq hrep =>
    obtain ⟨pre', suf', post', hp'⟩ := hp.complete hq st
    have hquiet : (s.completed node rest st).Quiet := ⟨hrep.resting, hrep.cur, rfl, rfl⟩
    refine Sys.Accounts.sendHead ?_ hp' hquiet
    cases hio : node.isIoctl with
    | true => exact h.completeIoctl hp hq hio
    | false => exact h.completeRequest hp hq hio hirq hrep (heo rfl) (hlost rfl)
  | goes a dev ht =>
    exact h.congr rfl rfl rfl rfl rfl (fun _ => rfl) fun n evs hfc => hfc.goes ht
  | answers a dev node rest st ht hq hexec => exact h.answers hp ht hq hexec
  | otherLine level =>
    exact h.congr rfl rfl rfl rfl rfl (fun _ => rfl) fun n evs hfc => hfc.congr rfl rfl rfl rfl rfl

theorem Sys.Initial.recorded (h : s.Initial) : s.Recorded lost := by
  have hlog : ∀ r, historyOf (.request r) s.log = [] := fun r => by rw [h.log]; rfl
  refine ⟨fun r hr => ?_, fun r _ => hlog r, fun r st hst => ?_, fun _ r _ => hlog r,
    fun hc => absurd (by rw [h.queue]; rfl) hc, fun r _ => by rw [hlog]; exact .unseen⟩
  · rw [h.outstanding] at hr
    cases hr
  · rw [h.submit] at hst
    cases hst

end

/-- In a run in which ERR_NO_TAPE befalls EJECT commands only, the history of every
request is accounted for. -/
theorem recorded_reachOn {lost : Prop} {G : Sys D → Label D → Prop}
    (hG : ∀ s l, (system D).ReachOn G s → G s l → l = .handle →
      s.EjectOnly ∧ (lost ∨ s.EjectBehind))
    {s : Sys D} (h : (system D).ReachOn G s) : s.Recorded lost := by
  refine Lts.invariantOn (fun _ => Sys.Initial.recorded) (fun s l s' hr hp hg hs => ?_) h
  have hf : s.Flow := flow_reachOn (fun _ => Sys.Initial.flow) hr
  exact recorded_step hp hf (shaped_reachOn hr) (fun hl => (hG s l hr hg hl).1)
    (fun hl => (hG s l hr hg hl).2) (Sys.next_step hf hs)

end Zso.Tape

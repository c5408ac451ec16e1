import Zso.Tape.Completion

/-!
# Submissions that fail

A call of `tapedev_queue_rq` that returns an error has not touched the queue or the device, and
has left `sec->req` as it found it. If the operation is READ or WRITE it has also called
`blk_mq_end_request`, and blk-mq, which gets the error, ends the request once more.

* `step_history`: a step logs something about a request only if the request is outstanding and
  has commands in the queue, or is the one whose submission comes to its end.
* `failed_call`: a failed call is clean if and only if the operation is not supported.
-/

namespace Zso.Tape
open Transition

variable {D : DevModel}

/-! ## The steps of others -/

/-- The steps that are not those of `tapedev_queue_rq`. -/
def Label.Other : Label D → Prop
  | .queueRq _ _ _ => False
  | .build => False
  | .splice => False
  | .fail => False
  | _ => True

/-- What the other threads and the device can do from `s` on. -/
def Interferes (s s' : Sys D) : Prop := (systemFrom D (· = s)).ReachOn (fun _ l => l.Other) s'

section
variable {s s' : Sys D} {l : Label D} {r : Nat}

/-- The handler says nothing about a request that has no command in the queue. -/
theorem Sys.Parts.complete_history {pre suf post : List LstNode} (hp : s.Parts pre suf post)
    (hr : ∀ n ∈ s.sec.cmdQueue, n.owner ≠ .request r) {node : LstNode} {rest : List LstNode}
    (hq : s.sec.cmdQueue = node :: rest) (st : SectStatus) :
    historyOf (.request r) (s.completed node rest st).sendHead.log =
      historyOf (.request r) s.log := by
  have hev : ∀ e ∈ (completeHead s.sec node rest st).2, e.about ≠ some (.request r) := by
    cases hio : node.isIoctl with
    | true => simp [(completeHead_ioctl hio s.sec rest st).1]
    | false =>
      obtain ⟨rfl, suf', rfl, rfl⟩ := hp.head_request hq hio
      obtain ⟨-, r', -, hreq, hb, -⟩ := hp.request.queued (by simp)
      have hne : r' ≠ r := by
        rintro rfl
        exact hr node (by rw [hq]; exact List.mem_cons_self)
          (hp.mem_suf hb node List.mem_cons_self).2
      have hend : ∀ status, ∀ e ∈ endEvents s.sec.req status, e.about ≠ some (.request r) := by
        intro status e he
        rw [hreq, endEvents, List.mem_singleton] at he
        subst he
        simpa [Event.about] using hne
      unfold completeHead
      split
      · dsimp only
        split
        · exact hend _
        · simp
      · split
        · simp
        · split
          · simp
          · dsimp only
            split
            · simp
            · exact hend _
  have hlog : historyOf (.request r) (s.completed node rest st).log =
      historyOf (.request r) s.log := by
    show historyOf _ (s.log ++ _) = _
    rw [historyOf_append, historyOf_none hev, List.append_nil]
  rw [← hlog]
  unfold Sys.sendHead
  cases hh : (s.completed node rest st).sec.cmdQueue.head? with
  | none => rfl
  | some n =>
    have hmem : n ∈ s.sec.cmdQueue := by
      rw [hq]
      exact (completeHead_suffix s.sec node rest hq st).mem (List.mem_of_head? hh)
    have hnone : historyOf (.request r) ((s.completed node rest st).sendEvents n) = [] :=
      historyOf_none fun e he => by simpa [Sys.sendEvents_about _ n e he] using hr n hmem
    show historyOf _ ((s.completed node rest st).send n).log = _
    rw [Sys.send_log, historyOf_append, hnone, List.append_nil]

/-- A step concerns only the request that is outstanding: if it has commands in the queue, or if
its submission ends. -/
theorem step_history (hsh : s.Shaped) (hs : s.Step l s')
    (hr : ¬ (s.outstanding = some r ∧
      (commandsLeft s.sec.cmdQueue ≠ [] ∨ l = .splice ∨ l = .fail))) :
    historyOf (.request r) s'.log = historyOf (.request r) s.log := by
  obtain ⟨pre, suf, post, hp⟩ := hsh
  have hqueue : ∀ n ∈ s.sec.cmdQueue, n.owner ≠ .request r :=
    hp.not_owner fun h => hr ⟨h.1, .inl h.2⟩
  have hreturned : ∀ {log : List Event} {c : Nat} {code : Int},
      historyOf (.request r) (log ++ [.returned c code]) = historyOf (.request r) log :=
    historyOf_concat (by simp [Event.about]) _
  have heject : historyOf (.request r) s.linkEject.log = historyOf (.request r) s.log :=
    Sys.link_history _ (by simp [ioctlNode])
  cases hs with
  | submit write start env ho hi => rfl
  | unsupported start env ho hi => rfl
  | built r' write start env st hsub hplan => rfl
  | notBuilt r' write start env e hsub hplan => rfl
  | splice r' nodes hsub =>
    have hreq := hp.request
    simp only [Sys.RequestOk, hsub] at hreq
    obtain ⟨-, ho, -, hb⟩ := hreq
    have hne : r' ≠ r := by
      rintro rfl
      exact hr ⟨ho, .inr (.inl rfl)⟩
    show historyOf _ (Sys.link _ nodes).log = _
    rw [Sys.link_history _ fun n hn => by simpa [(hb.notIoctl n hn).2] using hne]
    exact historyOf_concat (by simpa [Event.about] using hne) _
  | fail r' status hsub =>
    have hreq := hp.request
    simp only [Sys.RequestOk, hsub] at hreq
    have hne : r' ≠ r := by
      rintro rfl
      exact hr ⟨hreq.2.1, .inr (.inr rfl)⟩
    dsimp only
    split
    · rw [List.append_nil]
    · exact historyOf_concat (by simpa [Event.about] using hne) _
  | ejectOom => exact hreturned
  | ejectReturn hf => exact hreturned.trans heject
  | ejectWait hf => exact heject
  | wake c hc hf => exact hreturned
  | signal c hc hf => exact hreturned
  | snapshot hirq => rfl
  | readStatus done error hirq => rfl
  | nothing sn hirq hd he => rfl
  | complete node rest st hirq hq hrep => exact hp.complete_history hqueue hq st
  | goes a dev ht => rfl
  | answers a dev node rest st ht hq hexec =>
    refine historyOf_concat ?_ _
    simpa [Event.about] using hqueue node (by rw [hq]; exact List.mem_cons_self)
  | otherLine level => rfl

/-- Others leave a submission alone: what is in the queue meanwhile are ioctl commands. -/
theorem other_step (hsh : s.Shaped) (hs : s.Step l s') (hl : l.Other) (hsub : s.submit ≠ .idle) :
    s'.submit = s.submit ∧ s'.sec.req = s.sec.req ∧ s'.outstanding = s.outstanding := by
  obtain ⟨pre, suf, post, hp⟩ := hsh
  cases hs with
  | submit write start env ho hi => exact hl.elim
  | unsupported start env ho hi => exact hl.elim
  | built r' write start env st hb hplan => exact hl.elim
  | notBuilt r' write start env e hb hplan => exact hl.elim
  | splice r' nodes hb => exact hl.elim
  | fail r' status hb => exact hl.elim
  | ejectReturn hf => simp [Sys.consume, ejectConsume, Sys.linkEject]
  | ejectWait hf => simp [Sys.linkEject]
  | complete node rest st hirq hq hrep =>
    have hio : node.isIoctl = true := by
      have hqueue := (hp.submitting hsub).2.2
      exact hp.ioctlPre.isIoctl node (by rw [← hqueue, hq]; exact List.mem_cons_self)
    obtain ⟨hev, hreq, -⟩ := completeHead_ioctl hio s.sec rest st
    simp [Sys.completed, hev, hreq]
  | _ => exact ⟨rfl, rfl, rfl⟩

/-- What a submission finds after interference. -/
structure Undisturbed (r : Nat) (s s' : Sys D) : Prop where
  flow : s'.Flow
  shaped : s'.Shaped
  submit : s'.submit = s.submit
  req : s'.sec.req = s.sec.req
  outstanding : s'.outstanding = s.outstanding
  history : historyOf (.request r) s'.log = historyOf (.request r) s.log

theorem Interferes.undisturbed (h : Interferes s s') (hf : s.Flow) (hsh : s.Shaped)
    (hsub : s.submit ≠ .idle) (r : Nat) : Undisturbed r s s' := by
  refine Lts.invariantOn (M := systemFrom D (· = s)) ?_ (fun t l t' _ ht hl hs => ?_) h
  · rintro _ rfl
    exact ⟨hf, hsh, rfl, rfl, rfl, rfl⟩
  · have hstep := Sys.next_step ht.flow hs
    have hsub' : t.submit ≠ .idle := by rwa [ht.submit]
    obtain ⟨h1, h2, h3⟩ := other_step ht.shaped hstep hl hsub'
    have hnone : commandsLeft t.sec.cmdQueue = [] := by
      obtain ⟨pre, suf, post, hp⟩ := ht.shaped
      exact hp.none_left (.inr hsub')
    have hhist : historyOf (.request r) t'.log = historyOf (.request r) t.log := by
      refine step_history ht.shaped hstep ?_
      rintro ⟨-, hc | rfl | rfl⟩
      · exact hc hnone
      · exact hl
      · exact hl
    exact ⟨flow_step ht.flow hstep, shaped_step ht.shaped hstep, h1.trans ht.submit,
      h2.trans ht.req, h3.trans ht.outstanding, hhist.trans ht.history⟩

/-- The number of the next request is new. -/
structure Sys.FreshReq (s : Sys D) : Prop where
  outstanding : ∀ r, s.outstanding = some r → r < s.nextReq
  history : ∀ r, s.nextReq ≤ r → historyOf (.request r) s.log = []

theorem Sys.Step.nextReq (hs : s.Step l s') :
    s.nextReq ≤ s'.nextReq ∧ ∀ r, s'.outstanding = some r → s.outstanding = some r ∨
      r < s'.nextReq := by
  cases hs with
  | submit write start env ho hi =>
    refine ⟨Nat.le_succ _, fun r hr => .inr ?_⟩
    obtain rfl := Option.some.inj hr
    exact Nat.lt_succ_self _
  | unsupported start env ho hi =>
    refine ⟨Nat.le_succ _, fun r hr => .inr ?_⟩
    obtain rfl := Option.some.inj hr
    exact Nat.lt_succ_self _
  | splice r nodes hsub => exact ⟨by simp, fun r hr => .inl (by simpa using hr)⟩
  | fail r status hsub => exact ⟨Nat.le_refl _, by rintro r ⟨⟩⟩
  | ejectReturn hf =>
    exact ⟨by simp [Sys.consume, Sys.linkEject],
      fun r hr => .inl (by simpa [Sys.consume, Sys.linkEject] using hr)⟩
  | ejectWait hf =>
    exact ⟨by simp [Sys.linkEject], fun r hr => .inl (by simpa [Sys.linkEject] using hr)⟩
  | complete node rest st hirq hq hrep =>
    refine ⟨by simp [Sys.completed], fun r hr => .inl ?_⟩
    simp only [Sys.sendHead, Sys.completed, Sys.sendOpt_outstanding] at hr
    split at hr
    · cases hr
    · exact hr
  | _ => exact ⟨Nat.le_refl _, fun _ hr => .inl hr⟩

theorem freshReq_reach (h : (system D).Reach s) : s.FreshReq := by
  suffices hp : s.Shaped ∧ s.FreshReq from hp.2
  refine reach_induction (P := fun s => s.Shaped ∧ s.FreshReq) (fun s hi => ⟨hi.shaped, ?_⟩)
    (fun s l s' hf hp _ hs => ?_) h
  · exact ⟨by simp [hi.outstanding], by simp [hi.log, historyOf]⟩
  · obtain ⟨hsh, hfresh⟩ := hp
    obtain ⟨hle, ho⟩ := hs.nextReq
    refine ⟨shaped_step hsh hs, ⟨fun r hr => ?_, fun r hr => ?_⟩⟩
    · rcases ho r hr with hr | hr
      · exact (hfresh.outstanding r hr).trans_le hle
      · exact hr
    · rw [step_history hsh hs fun h => absurd (hfresh.outstanding r h.1) (by omega)]
      exact hfresh.history r (hle.trans hr)

end

/-! ## A call that fails -/

/-- `tapedev_queue_rq` runs from `s` to `s'` and returns `status`, which is not BLK_STS_OK. `own` has
the states before and after each of its own steps; between them others run. -/
inductive FailedCall (start : Nat) (env : SgEnv) :
    Option Bool → BlkStatus → (s s' : Sys D) → (own : List (Sys D × Sys D)) → Prop
  | unsupported {r : Nat} {status : BlkStatus} {s s₁ s₂ s' : Sys D} :
      s.queueRq none start env = some s₁ → Interferes s₁ s₂ →
      s₂.submit = .failed r status → s₂.fail = some s' →
      FailedCall start env none status s s' [(s, s₁), (s₂, s')]
  | readWrite {write : Bool} {r : Nat} {status : BlkStatus} {s s₁ s₂ s₃ s₄ s' : Sys D} :
      s.queueRq (some write) start env = some s₁ → Interferes s₁ s₂ → s₂.build = some s₃ →
      Interferes s₃ s₄ → s₄.submit = .failed r status → s₄.fail = some s' →
      FailedCall start env (some write) status s s' [(s, s₁), (s₂, s₃), (s₄, s')]

/-- How often blk-mq ends a request for which `queue_rq` has returned `status`: an error that is not
about resources ends it. -/
def blkMqEndings : BlkStatus → Nat
  | .ok => 0
  | _ => 1

/-- A step that leaves the queue, the tape, the ioctl fields and the device alone. -/
structure Untouched (s s' : Sys D) : Prop where
  queue : s'.sec.cmdQueue = s.sec.cmdQueue
  tape : s'.sec.currentTape = s.sec.currentTape
  ejectionCmds : s'.sec.ejectionCmds = s.sec.ejectionCmds
  ioctlCmdDone : s'.sec.ioctlCmdDone = s.sec.ioctlCmdDone
  ioctlStatus : s'.sec.ioctlStatus = s.sec.ioctlStatus
  dev : s'.dev = s.dev

/-- The request handed over in `s` is ended exactly once, no command of it was sent, and the call
has touched nothing. -/
structure FailsCleanly (status : BlkStatus) (s s' : Sys D) (own : List (Sys D × Sys D)) : Prop where
  ended : (endings s.nextReq s'.log).length + blkMqEndings status = 1
  unsent : ∀ n accepted, .sent n accepted ∈ s'.log → n.owner ≠ .request s.nextReq
  own : ∀ p ∈ own, Untouched p.1 p.2
  req : s'.sec.req = s.sec.req

section
variable {s s' : Sys D} {start : Nat} {env : SgEnv} {op : Option Bool}

theorem Sys.queueRq_inv (h : s.queueRq op start env = some s') :
    s.outstanding = none ∧ s.submit = .idle ∧ Untouched s s' ∧ s'.log = s.log ∧
      s'.submit ≠ .idle ∧ s'.outstanding = some s.nextReq ∧
      s'.sec.req = (if op = none then s.sec.req else some s.nextReq) ∧
      (∀ r status, s'.submit = .failed r status → status = .notsupp) := by
  unfold Sys.queueRq at h
  split at h
  · next ho hi =>
    cases op with
    | none =>
      cases h
      refine ⟨ho, hi, ⟨rfl, rfl, rfl, rfl, rfl, rfl⟩, rfl, by simp, rfl, rfl, ?_⟩
      rintro r status h
      cases h
      rfl
    | some write =>
      cases h
      exact ⟨ho, hi, ⟨rfl, rfl, rfl, rfl, rfl, rfl⟩, rfl, by simp, rfl, rfl, by rintro _ _ ⟨⟩⟩
  · cases h

theorem Sys.build_inv (h : s.build = some s') :
    Untouched s s' ∧ s'.log = s.log ∧ s'.submit ≠ .idle ∧ s'.outstanding = s.outstanding ∧
      s'.sec.req = s.sec.req ∧ (∀ r status, s'.submit = .failed r status → status ≠ .ok) := by
  unfold Sys.build at h
  split at h
  · next r write st env hsub =>
    cases hplan : planRequest s.sec.info write env st s.sec.cpuDmaBuf with
    | error e =>
      rw [hplan, onOutcome_error] at h
      cases h
      refine ⟨⟨rfl, rfl, rfl, rfl, rfl, rfl⟩, rfl, by simp, rfl, rfl, ?_⟩
      rintro r status h
      cases h
      exact planRequest_error hplan
    | ok st =>
      rw [hplan, onOutcome_ok] at h
      cases h
      exact ⟨⟨rfl, rfl, rfl, rfl, rfl, rfl⟩, rfl, by simp, rfl, rfl, by rintro _ _ ⟨⟩⟩
  · cases h

theorem Sys.fail_inv {r : Nat} {status : BlkStatus} (hsub : s.submit = .failed r status)
    (h : s.fail = some s') :
    Untouched s s' ∧ s'.sec.req = none ∧
      s'.log = s.log ++ if s.sec.req = none then [] else [.ended r status s.sec.req] := by
  unfold Sys.fail at h
  rw [hsub] at h
  cases h
  exact ⟨⟨rfl, rfl, rfl, rfl, rfl, rfl⟩, rfl, rfl⟩

/-- No request is set while none is outstanding and no submission runs. -/
theorem Sys.Shaped.req_none (h : s.Shaped) (hi : s.submit = .idle) (ho : s.outstanding = none) :
    s.sec.req = none := by
  obtain ⟨pre, suf, post, hp⟩ := h
  have hsuf : suf = [] := by
    by_contra hne
    obtain ⟨-, r, hr, -⟩ := hp.request.queued hne
    rw [ho] at hr
    cases hr
  have hreq := hp.request.idle hi
  rwa [if_pos hsuf, ho, or_self] at hreq

theorem Sys.Shaped.failed_outstanding (h : s.Shaped) {r : Nat} {status : BlkStatus}
    (hsub : s.submit = .failed r status) : s.outstanding = some r := by
  obtain ⟨pre, suf, post, hp⟩ := h
  have hreq := hp.request
  simp only [Sys.RequestOk, hsub] at hreq
  exact hreq.2.1

theorem mem_historyOf_nil {o : Owner} {log : List Event} (h : historyOf o log = []) {n : LstNode}
    {accepted : Bool} (hn : .sent n accepted ∈ log) : n.owner ≠ o := by
  intro ho
  have hmem : .sent n accepted ∈ historyOf o log := (mem_historyOf (by simp [Event.about, ho])).mpr hn
  rw [h] at hmem
  cases hmem

/-- What a failed call leaves behind: a READ or WRITE is ended by the driver and by blk-mq. -/
theorem FailedCall.summary {status : BlkStatus} {own : List (Sys D × Sys D)}
    (h : (system D).Reach s) (hc : FailedCall start env op status s s' own) :
    (endings s.nextReq s'.log).length + blkMqEndings status = (if op = none then 1 else 2) ∧
      (∀ n accepted, .sent n accepted ∈ s'.log → n.owner ≠ .request s.nextReq) ∧
      (∀ p ∈ own, Untouched p.1 p.2) ∧ s'.sec.req = s.sec.req := by
  have hflow := flow_reach h
  have hshaped := shaped_reachOn h
  have hfresh := (freshReq_reach h).history _ (Nat.le_refl _)
  cases hc with
  | @unsupported r _ _ s₁ s₂ _ hq hint hsub hfail =>
    obtain ⟨ho, hi, huq, hlog, hne, -, hreq, hst⟩ := Sys.queueRq_inv hq
    have hstep : s.Step (.queueRq none start env) s₁ := Sys.next_step hflow hq
    have hu := hint.undisturbed (flow_step hflow hstep) (shaped_step hshaped hstep) hne s.nextReq
    obtain ⟨huf, hreq', hlog'⟩ := Sys.fail_inv hsub hfail
    have hnone : s.sec.req = none := hshaped.req_none hi ho
    have hsecreq : s₂.sec.req = none := by rw [hu.req, hreq, if_pos rfl, hnone]
    obtain rfl := hst r status (by rw [← hu.submit, hsub])
    have hhist : historyOf (.request s.nextReq) s'.log = [] := by
      rw [hlog', if_pos hsecreq, List.append_nil, hu.history, hlog, hfresh]
    refine ⟨?_, fun n acc hn => mem_historyOf_nil hhist hn, ?_, by rw [hreq', hnone]⟩
    · rw [endings, hhist]
      rfl
    · simp [huq, huf]
  | @readWrite write r _ _ s₁ s₂ s₃ s₄ _ hq hint hbuild hint' hsub hfail =>
    obtain ⟨ho, hi, huq, hlog, hne, hout, hreq, -⟩ := Sys.queueRq_inv hq
    have hstep : s.Step (.queueRq (some write) start env) s₁ := Sys.next_step hflow hq
    have hu := hint.undisturbed (flow_step hflow hstep) (shaped_step hshaped hstep) hne s.nextReq
    obtain ⟨hub, hlogb, hneb, houtb, hreqb, hst⟩ := Sys.build_inv hbuild
    have hstep' : s₂.Step .build s₃ := Sys.next_step hu.flow hbuild
    have hu' := hint'.undisturbed (flow_step hu.flow hstep') (shaped_step hu.shaped hstep') hneb
      s.nextReq
    obtain ⟨huf, hreq', hlog'⟩ := Sys.fail_inv hsub hfail
    have hsecreq : s₄.sec.req = some s.nextReq := by
      rw [hu'.req, hreqb, hu.req, hreq, if_neg (by simp)]
    have hr : r = s.nextReq := by
      have hr := hu'.shaped.failed_outstanding hsub
      rw [hu'.outstanding, houtb, hu.outstanding, hout] at hr
      exact (Option.some.inj hr).symm
    have hstatus : status ≠ .ok := hst r status (by rw [← hu'.submit, hsub])
    have hold : historyOf (.request s.nextReq) s₄.log = [] := by
      rw [hu'.history, hlogb, hu.history, hlog, hfresh]
    rw [hsecreq, if_neg (by simp), hr] at hlog'
    have hhist : historyOf (.request s.nextReq) s'.log =
        [.ended s.nextReq status (some s.nextReq)] := by
      rw [hlog', historyOf_concat_self rfl, hold, List.nil_append]
    refine ⟨?_, fun n acc hn => ?_, ?_, by rw [hreq', hshaped.req_none hi ho]⟩
    · rw [endings, hhist]
      cases status with
      | ok => exact absurd rfl hstatus
      | _ => rfl
    · rw [hlog', List.mem_append, List.mem_singleton] at hn
      exact mem_historyOf_nil hold (hn.resolve_right (by simp))
    · simp [huq, hub, huf]

end

/-- A call of `tapedev_queue_rq` that fails ends the request exactly once and touches nothing if and
only if the operation is not supported, whatever others do meanwhile. -/
theorem failed_call {s s' : Sys D} (h : (system D).Reach s) {start : Nat} {env : SgEnv}
    {op : Option Bool} {status : BlkStatus} {own : List (Sys D × Sys D)}
    (hc : FailedCall start env op status s s' own) :
    FailsCleanly status s s' own ↔ op = none := by
  obtain ⟨hended, hunsent, hown, hreq⟩ := hc.summary h
  constructor
  · intro hclean
    by_contra hop
    rw [if_neg hop, hclean.ended] at hended
    cases hended
  · intro hop
    rw [if_pos hop] at hended
    exact ⟨hended, hunsent, hown, hreq⟩

theorem Interferes.refl (s : Sys D) : Interferes s s := .init rfl

/-- What the block layer hands over with a request of one block. -/
def oneBlockEnv : SgEnv := ⟨fun _ => false, true, [⟨4096, 512⟩]⟩

/-- A request that is neither READ nor WRITE. -/
theorem failed_call_unsupported :
    ∃ s' : Sys anyDevice, ∃ own, FailedCall 0 oneBlockEnv none .notsupp freshSection s' own ∧
      FailsCleanly .notsupp freshSection s' own := by
  let s₁ := (freshSection.queueRq none 0 oneBlockEnv).get (by decide +kernel)
  let s' := s₁.fail.get (by decide +kernel)
  have hc : FailedCall 0 oneBlockEnv none .notsupp freshSection s' [(freshSection, s₁), (s₁, s')] :=
    .unsupported (r := 0) (Option.some_get _).symm (.refl s₁) rfl (Option.some_get _).symm
  exact ⟨s', _, hc, (failed_call (.init freshSection_initial) hc).mpr rfl⟩

/-- A READ that starts behind the end of the section is ended twice. -/
theorem failed_read_ended_twice :
    ∃ s' : Sys anyDevice, ∃ own,
      FailedCall 1024 oneBlockEnv (some false) .ioerr freshSection s' own ∧
      endings freshSection.nextReq s'.log = [.ioerr] ∧
      (endings freshSection.nextReq s'.log).length + blkMqEndings .ioerr = 2 := by
  let s₁ := (freshSection.queueRq (some false) 1024 oneBlockEnv).get (by decide +kernel)
  let s₃ := { s₁ with submit := .failed 0 .ioerr }
  let s' := s₃.fail.get (by decide +kernel)
  have hplan : planRequest freshSection.sec.info false oneBlockEnv 1024 freshSection.sec.cpuDmaBuf =
      .error (.ioerr, ⟨0, 0, 0, 0, 0, 0, freshSection.sec.cpuDmaBuf, []⟩) := by
    rw [planRequest, createStartPosSetupCmds, calcStartPos_none (by decide)]
    rfl
  have hbuild : s₁.build = some s₃ := by
    show some (onOutcome _ _ (planRequest freshSection.sec.info false oneBlockEnv 1024
      freshSection.sec.cpuDmaBuf)) = _
    rw [hplan]
    rfl
  have hc : FailedCall 1024 oneBlockEnv (some false) .ioerr freshSection s'
      [(freshSection, s₁), (s₁, s₃), (s₃, s')] :=
    .readWrite (r := 0) (Option.some_get _).symm (.refl s₁) hbuild (.refl s₃) rfl
      (Option.some_get _).symm
  exact ⟨s', _, hc, by decide +kernel, by decide +kernel⟩

end Zso.Tape

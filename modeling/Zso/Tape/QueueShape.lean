import Zso.Tape.InFlight

/-!
# The shape of the command queue

The nodes of the queue carry no owner, and the driver takes a request's last
command for the one that has an ioctl command or nothing behind it. That this is
sound rests on the shape of the queue: ioctl commands, what is left of the one
outstanding request, ioctl commands (`queue_shape`).
-/

namespace Zso.Tape
open Transition

variable {D : DevModel}

/-- Commands queued by EJECT ioctls. -/
def IoctlNodes (q : List LstNode) : Prop := ∀ n ∈ q, ∃ c, n = ioctlNode c

/-- The commands built for the request `r`. -/
def BuiltFor (r : Nat) (nodes : List LstNode) : Prop :=
  ∃ cs, Built cs ∧ nodes = cs.map fun c => ⟨c.node, .request r⟩

/-! ## Lists of nodes -/

theorem IoctlNodes.isIoctl {q : List LstNode} (h : IoctlNodes q) : ∀ n ∈ q, n.isIoctl = true := by
  intro n hn
  obtain ⟨c, rfl⟩ := h n hn
  rfl

theorem IoctlNodes.append {q q' : List LstNode} (h : IoctlNodes q) (h' : IoctlNodes q') :
    IoctlNodes (q ++ q') := fun n hn => (List.mem_append.mp hn).elim (h n) (h' n)

theorem IoctlNodes.single (c : Nat) : IoctlNodes [ioctlNode c] :=
  fun _ hn => ⟨c, List.mem_singleton.mp hn⟩

theorem BuiltFor.notIoctl {r : Nat} {nodes : List LstNode} (h : BuiltFor r nodes) :
    ∀ n ∈ nodes, n.isIoctl = false ∧ n.owner = .request r := by
  obtain ⟨cs, -, rfl⟩ := h
  intro n hn
  obtain ⟨c, -, rfl⟩ := List.mem_map.mp hn
  exact ⟨rfl, rfl⟩

theorem BuiltFor.ne_nil {r : Nat} {nodes : List LstNode} (h : BuiltFor r nodes) : nodes ≠ [] := by
  obtain ⟨cs, hcs, rfl⟩ := h
  cases hcs <;> simp [changeCmds]

theorem builtFor_nodes {l : List SectionCmd} (h : BuiltNodes l) (r : Nat) :
    BuiltFor r (l.map fun c => ⟨c, .request r⟩) := by
  obtain ⟨cs, hcs, rfl⟩ := h
  exact ⟨cs, hcs, by simp⟩

/-- Behind a request's commands the first ioctl command starts the rest. -/
theorem fromIoctl_append {suf post : List LstNode} (hs : ∀ n ∈ suf, n.isIoctl = false)
    (hp : IoctlNodes post) : fromIoctl (suf ++ post) = post := by
  induction suf with
  | nil =>
    cases post with
    | nil => rfl
    | cons n post => simp [fromIoctl, hp.isIoctl n List.mem_cons_self]
  | cons n suf ih =>
    have hn := hs n List.mem_cons_self
    have hrest := ih fun m hm => hs m (List.mem_cons_of_mem _ hm)
    simpa [fromIoctl, hn] using hrest

/-- A command of a request is its last one exactly if none of its commands is
behind it. -/
theorem lastOfRequest_append {node : LstNode} {suf post : List LstNode}
    (hn : node.isIoctl = false) (hs : ∀ n ∈ suf, n.isIoctl = false) (hp : IoctlNodes post) :
    lastOfRequest node (suf ++ post) = suf.isEmpty := by
  cases suf with
  | nil =>
    cases post with
    | nil => simp [lastOfRequest, hn]
    | cons m post => simp [lastOfRequest, hn, hp.isIoctl m List.mem_cons_self]
  | cons m suf => simp [lastOfRequest, hn, hs m List.mem_cons_self]

/-! ## The invariant -/

/-- How `sec->req`, the submitting thread and what is left of the request on the
queue go together. -/
def Sys.RequestOk (s : Sys D) (suf : List LstNode) : Prop :=
  match s.submit with
  | .idle =>
    if suf = [] then s.sec.req = none ∨ s.sec.req = s.outstanding
    else ∃ r, s.outstanding = some r ∧ s.sec.req = some r ∧ BuiltFor r s.built ∧
      .queued r s.built ∈ s.log
  | .started r _ _ _ => suf = [] ∧ s.outstanding = some r ∧ s.sec.req = some r
  | .built r nodes => suf = [] ∧ s.outstanding = some r ∧ s.sec.req = some r ∧ BuiltFor r nodes
  | .failed r _ =>
    suf = [] ∧ s.outstanding = some r ∧ (s.sec.req = none ∨ s.sec.req = some r)

/-- The queue is `pre ++ suf ++ post`. A request's commands are not touched while
ioctl commands are in front of them. -/
structure Sys.Parts (s : Sys D) (pre suf post : List LstNode) : Prop where
  queue : s.sec.cmdQueue = pre ++ suf ++ post
  ioctlPre : IoctlNodes pre
  ioctlPost : IoctlNodes post
  post_nil : suf = [] → post = []
  suffix : suf <:+ s.built
  whole : pre ≠ [] → suf ≠ [] → suf = s.built
  request : s.RequestOk suf

def Sys.Shaped (s : Sys D) : Prop := ∃ pre suf post, s.Parts pre suf post

section
variable {s s' : Sys D} {l : Label D} {pre suf post : List LstNode}

theorem Sys.RequestOk.idle (h : s.RequestOk suf) (hi : s.submit = .idle) :
    if suf = [] then s.sec.req = none ∨ s.sec.req = s.outstanding
    else ∃ r, s.outstanding = some r ∧ s.sec.req = some r ∧ BuiltFor r s.built ∧
      .queued r s.built ∈ s.log := by
  unfold Sys.RequestOk at h
  rw [hi] at h
  exact h

/-- While commands of a request are queued, its submission is over. -/
theorem Sys.RequestOk.queued (h : s.RequestOk suf) (hne : suf ≠ []) :
    s.submit = .idle ∧ ∃ r, s.outstanding = some r ∧ s.sec.req = some r ∧ BuiltFor r s.built ∧
      .queued r s.built ∈ s.log := by
  unfold Sys.RequestOk at h
  split at h
  · next hi =>
    rw [if_neg hne] at h
    exact ⟨hi, h⟩
  · exact absurd h.1 hne
  · exact absurd h.1 hne
  · exact absurd h.1 hne

/-- Changes that do not concern the request. -/
theorem Sys.RequestOk.congr (h : s.RequestOk suf) (hsub : s'.submit = s.submit)
    (hreq : s'.sec.req = s.sec.req) (ho : s'.outstanding = s.outstanding) (hb : s'.built = s.built)
    (hl : ∀ e ∈ s.log, e ∈ s'.log) : s'.RequestOk suf := by
  unfold Sys.RequestOk at h ⊢
  rw [hsub, hreq, ho, hb]
  cases hs : s.submit with
  | idle =>
    rw [hs] at h
    simp only at h ⊢
    split
    · next hnil =>
      rw [if_pos hnil] at h
      exact h
    · next hne =>
      rw [if_neg hne] at h
      obtain ⟨r, h1, h2, h3, h4⟩ := h
      exact ⟨r, h1, h2, h3, hl _ h4⟩
  | started r write start env => rwa [hs] at h
  | built r nodes => rwa [hs] at h
  | failed r status => rwa [hs] at h

/-- Steps that leave the queue and the request alone. -/
theorem Sys.Parts.congr (h : s.Parts pre suf post) (hq : s'.sec.cmdQueue = s.sec.cmdQueue)
    (hsub : s'.submit = s.submit) (hreq : s'.sec.req = s.sec.req)
    (ho : s'.outstanding = s.outstanding) (hb : s'.built = s.built)
    (hl : ∀ e ∈ s.log, e ∈ s'.log) : s'.Parts pre suf post :=
  ⟨hq.trans h.queue, h.ioctlPre, h.ioctlPost, h.post_nil, by rw [hb]; exact h.suffix,
    by rw [hb]; exact h.whole, h.request.congr hsub hreq ho hb hl⟩

/-- A queue without commands of a request. -/
theorem Sys.Parts.ofIoctl {q : List LstNode} (hq : s.sec.cmdQueue = q) (hio : IoctlNodes q)
    (h : s.RequestOk []) : s.Parts q [] [] :=
  ⟨by simp [hq], hio, by simp [IoctlNodes], fun _ => rfl, List.nil_suffix, fun _ h => absurd rfl h, h⟩

/-- With no command of a request left, all is in front. -/
theorem Sys.Parts.nil (h : s.Parts pre [] post) : s.sec.cmdQueue = pre ∧ post = [] := by
  have hp := h.post_nil rfl
  subst hp
  exact ⟨by simpa using h.queue, rfl⟩

theorem Sys.Parts.mem_suf (h : s.Parts pre suf post) {r : Nat} (hb : BuiltFor r s.built) :
    ∀ n ∈ suf, n.isIoctl = false ∧ n.owner = .request r :=
  fun n hn => hb.notIoctl n (h.suffix.mem hn)

/-- An ioctl command at the head is in front of the request. -/
theorem Sys.Parts.head_ioctl (h : s.Parts pre suf post) {node : LstNode} {rest : List LstNode}
    (hq : s.sec.cmdQueue = node :: rest) (hio : node.isIoctl = true) :
    ∃ pre', pre = node :: pre' ∧ rest = pre' ++ suf ++ post := by
  have hqueue := h.queue
  rw [hq] at hqueue
  cases pre with
  | cons n pre' =>
    simp only [List.cons_append, List.cons.injEq] at hqueue
    obtain ⟨rfl, rfl⟩ := hqueue
    exact ⟨pre', rfl, rfl⟩
  | nil =>
    cases suf with
    | nil =>
      have hp := h.post_nil rfl
      subst hp
      cases hqueue
    | cons n suf' =>
      simp only [List.nil_append, List.cons_append, List.cons.injEq] at hqueue
      obtain ⟨rfl, -⟩ := hqueue
      obtain ⟨-, r, -, -, hb, -⟩ := h.request.queued (by simp)
      have hn := (h.mem_suf hb node List.mem_cons_self).1
      rw [hio] at hn
      cases hn

/-- A head that is not an ioctl command is the first command left of the request. -/
theorem Sys.Parts.head_request (h : s.Parts pre suf post) {node : LstNode} {rest : List LstNode}
    (hq : s.sec.cmdQueue = node :: rest) (hio : node.isIoctl = false) :
    pre = [] ∧ ∃ suf', suf = node :: suf' ∧ rest = suf' ++ post := by
  have hqueue := h.queue
  rw [hq] at hqueue
  cases pre with
  | cons n pre =>
    simp only [List.cons_append, List.cons.injEq] at hqueue
    have hn := h.ioctlPre.isIoctl n List.mem_cons_self
    rw [← hqueue.1, hio] at hn
    cases hn
  | nil =>
    cases suf with
    | nil =>
      have hp := h.post_nil rfl
      subst hp
      cases hqueue
    | cons n suf' =>
      simp only [List.nil_append, List.cons_append, List.cons.injEq] at hqueue
      obtain ⟨rfl, rfl⟩ := hqueue
      exact ⟨rfl, suf', rfl, rfl⟩

@[simp] theorem Sys.link_submit (s : Sys D) (nodes : List LstNode) :
    (s.link nodes).submit = s.submit := by
  unfold Sys.link
  split <;> simp

@[simp] theorem Sys.link_outstanding (s : Sys D) (nodes : List LstNode) :
    (s.link nodes).outstanding = s.outstanding := by
  unfold Sys.link
  split <;> simp

@[simp] theorem Sys.link_built (s : Sys D) (nodes : List LstNode) :
    (s.link nodes).built = s.built := by
  unfold Sys.link
  split <;> simp

theorem Sys.sendOpt_log (s : Sys D) (o : Option LstNode) : ∀ e ∈ s.log, e ∈ (s.sendOpt o).log := by
  intro e he
  cases o with
  | none => exact he
  | some n =>
    show e ∈ (s.send n).log
    rw [Sys.send_log]
    exact List.mem_append_left _ he

theorem Sys.link_log (s : Sys D) (nodes : List LstNode) : ∀ e ∈ s.log, e ∈ (s.link nodes).log := by
  intro e he
  unfold Sys.link
  split
  · exact s.sendOpt_log _ e he
  · exact he

/-- Linking an ioctl command. -/
theorem Sys.Parts.linkEject (h : s.Parts pre suf post) : s.linkEject.Shaped := by
  have hreq : s.linkEject.RequestOk suf :=
    h.request.congr (by simp [Sys.linkEject]) (by simp [Sys.linkEject]) (by simp [Sys.linkEject])
      (by simp [Sys.linkEject]) fun e he => Sys.link_log _ _ e he
  have hbuilt : s.linkEject.built = s.built := by simp [Sys.linkEject]
  have hqueue : s.linkEject.sec.cmdQueue = s.sec.cmdQueue ++ [ioctlNode s.nextCall] := by
    simp [Sys.linkEject]
  by_cases hs : suf = []
  · subst hs
    obtain ⟨hq, -⟩ := h.nil
    exact ⟨_, _, _, Sys.Parts.ofIoctl (by rw [hqueue, hq]) (h.ioctlPre.append (.single _)) hreq⟩
  · refine ⟨pre, suf, post ++ [ioctlNode s.nextCall], ?_, h.ioctlPre, h.ioctlPost.append (.single _),
      fun h0 => absurd h0 hs, by rw [hbuilt]; exact h.suffix, by rw [hbuilt]; exact h.whole, hreq⟩
    rw [hqueue, h.queue, List.append_assoc]

/-- The handler deals with the head of the queue. -/
theorem Sys.Parts.complete (h : s.Parts pre suf post) {node : LstNode} {rest : List LstNode}
    (hq : s.sec.cmdQueue = node :: rest) (st : SectStatus) :
    (s.completed node rest st).Shaped := by
  have hlog : ∀ e ∈ s.log, e ∈ (s.completed node rest st).log :=
    fun e he => List.mem_append_left _ he
  cases hio : node.isIoctl with
  | true =>
    -- an ioctl command: the request is not concerned
    obtain ⟨pre', rfl, rfl⟩ := h.head_ioctl hq hio
    obtain ⟨hev, hreq, hqueue⟩ := completeHead_ioctl
      (h.ioctlPre.isIoctl node List.mem_cons_self) s.sec (pre' ++ suf ++ post) st
    have hpre' : IoctlNodes pre' := fun m hm => h.ioctlPre m (List.mem_cons_of_mem _ hm)
    have hrequest : (s.completed node (pre' ++ suf ++ post) st).RequestOk suf :=
      h.request.congr rfl hreq (by simp only [Sys.completed, hev]; rfl) rfl hlog
    have hrest : pre' ≠ [] → suf ≠ [] → suf = s.built := fun _ => h.whole (by simp)
    by_cases hst : st = .done ∨ st = .errNoTape
    · rw [if_pos hst] at hqueue
      exact ⟨pre', suf, post, hqueue, hpre', h.ioctlPost, h.post_nil, h.suffix, hrest, hrequest⟩
    · rw [if_neg hst, h.queue] at hqueue
      exact ⟨node :: pre', suf, post, hqueue, h.ioctlPre, h.ioctlPost, h.post_nil, h.suffix,
        h.whole, hrequest⟩
  | false =>
    obtain ⟨rfl, suf', rfl, rfl⟩ := h.head_request hq hio
    obtain ⟨hi, r, ho, hr, hb, hqd⟩ := h.request.queued (by simp)
    have hsuf' : ∀ m ∈ suf', m.isIoctl = false := fun m hm =>
      (h.mem_suf hb m (List.mem_cons_of_mem _ hm)).1
    have hlast := lastOfRequest_append hio hsuf' h.ioctlPost
    have hsuffix : suf' <:+ s.built := (List.suffix_cons node suf').trans h.suffix
    by_cases hd : st = .done
    · subst hd
      by_cases hs' : suf' = []
      · subst hs'
        refine ⟨post, [], [], Sys.Parts.ofIoctl rfl h.ioctlPost ?_⟩
        simp only [List.nil_append, List.isEmpty_nil] at hlast
        simp [Sys.RequestOk, Sys.completed, hi, completeHead, hlast]
      · have hne : suf'.isEmpty = false := by simpa using hs'
        rw [hne] at hlast
        refine ⟨[], suf', post, rfl, by simp [IoctlNodes], h.ioctlPost, fun h0 => absurd h0 hs',
          hsuffix, fun h0 => absurd rfl h0, ?_⟩
        simp only [Sys.RequestOk, Sys.completed, hi, completeHead, hlast, if_neg hs']
        exact ⟨r, by simpa using ho, by simpa using hr, hb, by simpa using hqd⟩
    · by_cases hn : st = .errNoTape
      · subst hn
        by_cases hs' : suf' = []
        · subst hs'
          refine ⟨post, [], [], Sys.Parts.ofIoctl rfl h.ioctlPost ?_⟩
          simp [Sys.RequestOk, Sys.completed, hi, completeHead, hr, ho]
        · refine ⟨[], suf', post, rfl, by simp [IoctlNodes], h.ioctlPost,
            fun h0 => absurd h0 hs', hsuffix, fun h0 => absurd rfl h0, ?_⟩
          simp only [Sys.RequestOk, Sys.completed, hi, completeHead, if_neg hs']
          exact ⟨r, by simpa using ho, by simpa using hr, hb, by simpa using hqd⟩
      · have hfrom : fromIoctl (suf' ++ post) = post := fromIoctl_append hsuf' h.ioctlPost
        refine ⟨post, [], [], Sys.Parts.ofIoctl ?_ h.ioctlPost ?_⟩
        · simp [Sys.completed, completeHead, hd, hn, hio, hfrom]
        · simp [Sys.RequestOk, Sys.completed, hi, completeHead, hd, hn, hio]

theorem Sys.Shaped.congr (h : s.Shaped) (hq : s'.sec.cmdQueue = s.sec.cmdQueue)
    (hsub : s'.submit = s.submit) (hreq : s'.sec.req = s.sec.req)
    (ho : s'.outstanding = s.outstanding) (hb : s'.built = s.built)
    (hl : ∀ e ∈ s.log, e ∈ s'.log) : s'.Shaped := by
  obtain ⟨pre, suf, post, hp⟩ := h
  exact ⟨pre, suf, post, hp.congr hq hsub hreq ho hb hl⟩

/-- While a submission runs no command of a request is queued. -/
theorem Sys.Parts.submitting (h : s.Parts pre suf post) (hs : s.submit ≠ .idle) :
    suf = [] ∧ post = [] ∧ s.sec.cmdQueue = pre := by
  have hsuf : suf = [] := by
    by_contra hne
    exact hs (h.request.queued hne).1
  subst hsuf
  obtain ⟨hq, hp⟩ := h.nil
  exact ⟨rfl, hp, hq⟩

theorem shaped_step (h : s.Shaped) (hs : s.Step l s') : s'.Shaped := by
  have hmono : ∀ {l' : List Event}, ∀ e ∈ s.log, e ∈ s.log ++ l' :=
    fun e he => List.mem_append_left _ he
  cases hs with
  | submit write start env ho hi =>
    obtain ⟨pre, suf, post, hp⟩ := h
    have hsuf : suf = [] := by
      by_contra hne
      obtain ⟨-, r, hr, -⟩ := hp.request.queued hne
      rw [ho] at hr
      cases hr
    subst hsuf
    exact ⟨_, _, _, Sys.Parts.ofIoctl hp.nil.1 hp.ioctlPre ⟨rfl, rfl, rfl⟩⟩
  | unsupported start env ho hi =>
    obtain ⟨pre, suf, post, hp⟩ := h
    have hsuf : suf = [] := by
      by_contra hne
      obtain ⟨-, r, hr, -⟩ := hp.request.queued hne
      rw [ho] at hr
      cases hr
    subst hsuf
    have hreq := hp.request.idle hi
    rw [if_pos rfl, ho, or_self] at hreq
    exact ⟨_, _, _, Sys.Parts.ofIoctl hp.nil.1 hp.ioctlPre ⟨rfl, rfl, .inl hreq⟩⟩
  | built r write start env st hsub hplan =>
    obtain ⟨pre, suf, post, hp⟩ := h
    have hreq := hp.request
    simp only [Sys.RequestOk, hsub] at hreq
    obtain ⟨rfl, ho, hr⟩ := hreq
    exact ⟨_, _, _, Sys.Parts.ofIoctl hp.nil.1 hp.ioctlPre
      ⟨rfl, ho, hr, builtFor_nodes (planRequest_built hplan) r⟩⟩
  | notBuilt r write start env e hsub hplan =>
    obtain ⟨pre, suf, post, hp⟩ := h
    have hreq := hp.request
    simp only [Sys.RequestOk, hsub] at hreq
    obtain ⟨rfl, ho, hr⟩ := hreq
    exact ⟨_, _, _, Sys.Parts.ofIoctl hp.nil.1 hp.ioctlPre ⟨rfl, ho, .inr hr⟩⟩
  | splice r nodes hsub =>
    obtain ⟨pre, suf, post, hp⟩ := h
    have hreq := hp.request
    simp only [Sys.RequestOk, hsub] at hreq
    obtain ⟨rfl, ho, hr, hb⟩ := hreq
    refine ⟨pre, nodes, [], ?_, hp.ioctlPre, by simp [IoctlNodes], fun _ => rfl,
      List.suffix_refl _, fun _ _ => rfl, ?_⟩
    · simp [hp.nil.1]
    · simp only [Sys.RequestOk, if_neg hb.ne_nil]
      exact ⟨r, by simpa using ho, by simpa using hr, hb, Sys.link_log _ _ _ (by simp)⟩
  | fail r status hsub =>
    obtain ⟨pre, suf, post, hp⟩ := h
    obtain ⟨rfl, rfl, hq⟩ := hp.submitting (by simp [hsub])
    exact ⟨_, _, _, Sys.Parts.ofIoctl hq hp.ioctlPre (by simp [Sys.RequestOk])⟩
  | ejectOom => exact h.congr rfl rfl rfl rfl rfl hmono
  | ejectReturn hf =>
    obtain ⟨pre, suf, post, hp⟩ := h
    exact hp.linkEject.congr rfl rfl rfl rfl rfl fun e he => List.mem_append_left _ he
  | ejectWait hf =>
    obtain ⟨pre, suf, post, hp⟩ := h
    exact hp.linkEject.congr rfl rfl rfl rfl rfl fun e he => he
  | wake c hc hf => exact h.congr rfl rfl rfl rfl rfl hmono
  | signal c hc hf => exact h.congr rfl rfl rfl rfl rfl hmono
  | snapshot hirq => exact h.congr rfl rfl rfl rfl rfl fun e he => he
  | readStatus done error hirq => exact h.congr rfl rfl rfl rfl rfl fun e he => he
  | nothing sn hirq hd he => exact h.congr rfl rfl rfl rfl rfl fun e he => he
  | complete node rest st hirq hq hrep =>
    obtain ⟨pre, suf, post, hp⟩ := h
    exact (hp.complete hq st).congr (by simp) (by simp)
      (by simp) (by simp) (by simp)
      (Sys.sendOpt_log _ _)
  | goes a dev ht => exact h.congr rfl rfl rfl rfl rfl fun e he => he
  | answers a dev node rest st ht hq hexec => exact h.congr rfl rfl rfl rfl rfl hmono
  | otherLine level => exact h.congr rfl rfl rfl rfl rfl fun e he => he

theorem Sys.Initial.shaped (h : s.Initial) : s.Shaped := by
  refine ⟨[], [], [], Sys.Parts.ofIoctl h.queue (by simp [IoctlNodes]) ?_⟩
  simp [Sys.RequestOk, h.submit, h.req]

end

theorem shaped_reachOn {G : Sys D → Label D → Prop} {s : Sys D} (h : (system D).ReachOn G s) :
    s.Shaped :=
  reach_induction (fun _ => Sys.Initial.shaped) (fun _ _ _ _ hp _ hs => shaped_step hp hs) h

/-- The handler, with an error in its snapshot, deals with the head's error. -/
theorem Sys.Flow.handle_error_cases {s s' : Sys D} (h : s.Flow) {done : Bool} {st : SectStatus}
    (hirq : s.irq = some ⟨done, true, some st⟩) (hs : s.next .handle = some s') :
    ∃ node rest, s.sec.cmdQueue = node :: rest ∧ s.Reported node st ∧ st.isErr = true ∧
      s' = (s.completed node rest st).sendHead := by
  rcases h.handle_cases hs with ⟨sn, hsn, -, he, -⟩ | ⟨node, rest, st', hirq', hq, hrep, rfl⟩
  · rw [hirq] at hsn
    cases hsn
    cases he
  · rw [hirq] at hirq'
    simp only [Option.some.injEq, Snapshot.mk.injEq] at hirq'
    obtain ⟨-, herr, rfl⟩ := hirq'
    exact ⟨node, rest, hq, hrep, herr.symm, rfl⟩

/-- The queue of a section: ioctl commands, then what is left of the commands
built for the outstanding request, then ioctl commands. While something is left,
`sec->req` is that request.

When a command of the request fails with an error other than ERR_NO_TAPE, the
handler removes the request's commands and leaves the ioctl commands. -/
theorem queue_shape {s : Sys D} (h : (system D).Reach s) :
    (∃ pre suf post, s.sec.cmdQueue = pre ++ suf ++ post ∧ IoctlNodes pre ∧ IoctlNodes post ∧
      suf <:+ s.built ∧
      (suf ≠ [] → ∃ r, s.outstanding = some r ∧ s.sec.req = some r ∧ BuiltFor r s.built ∧
        .queued r s.built ∈ s.log)) ∧
    ∀ s' node rest done st, s.sec.cmdQueue = node :: rest → node.isIoctl = false →
      s.irq = some ⟨done, true, some st⟩ → st ≠ .errNoTape → s.next .handle = some s' →
      s'.sec.cmdQueue = s.sec.cmdQueue.filter LstNode.isIoctl := by
  obtain ⟨pre, suf, post, hp⟩ := shaped_reachOn h
  refine ⟨⟨pre, suf, post, hp.queue, hp.ioctlPre, hp.ioctlPost, hp.suffix,
    fun hne => (hp.request.queued hne).2⟩, ?_⟩
  intro s' node rest done st hq hio hirq hst hs
  obtain ⟨node', rest', hq', hrep, herr, rfl⟩ := (flow_reach h).handle_error_cases hirq hs
  rw [hq] at hq'
  obtain ⟨rfl, rfl⟩ := List.cons.inj hq'
  have hd : st ≠ .done := by
    rintro rfl
    exact absurd herr (by decide)
  obtain ⟨rfl, suf', rfl, rfl⟩ := hp.head_request hq hio
  obtain ⟨-, r, -, -, hb, -⟩ := hp.request.queued (by simp)
  have hsuf : ∀ m ∈ suf', m.isIoctl = false := fun m hm =>
    (hp.mem_suf hb m (List.mem_cons_of_mem _ hm)).1
  have hleft : (suf' ++ post).filter LstNode.isIoctl = post := by
    rw [List.filter_append, List.filter_eq_nil_iff.mpr (by simpa using hsuf),
      List.filter_eq_self.mpr hp.ioctlPost.isIoctl, List.nil_append]
  rw [hq, List.filter_cons_of_neg (by simp [hio]), hleft]
  simp [Sys.completed, completeHead, hd, hst, hio, fromIoctl_append hsuf hp.ioctlPost]

/-- A request behind one EJECT ioctl and in front of another. -/
theorem queue_shape_between_ejects :
    ∃ s : Sys anyDevice, (system anyDevice).Reach s ∧
      s.sec.cmdQueue.map LstNode.isIoctl = [true, false, false, false, false, false, true] ∧
      ∃ pre suf post, s.sec.cmdQueue = pre ++ suf ++ post ∧ IoctlNodes pre ∧ IoctlNodes post ∧
        suf <:+ s.built ∧
        (suf ≠ [] → ∃ r, s.outstanding = some r ∧ s.sec.req = some r ∧ BuiltFor r s.built ∧
          .queued r s.built ∈ s.log) := by
  let run : Option (Sys anyDevice) := (system anyDevice).exec freshSection
    [.eject false, .queueRq (some true) 3 ⟨fun _ => false, true, [⟨4096, 512⟩]⟩, .build, .splice,
      .eject false]
  have hlen : run.map (fun s => s.sec.cmdQueue.map LstNode.isIoctl) =
      some [true, false, false, false, false, false, true] := by
    decide +kernel
  obtain ⟨s, hs, hmap⟩ := Option.map_eq_some_iff.mp hlen
  have hr : (system anyDevice).Reach s := Lts.reach_exec (.init freshSection_initial) hs
  exact ⟨s, hr, hmap, (queue_shape hr).1⟩

end Zso.Tape

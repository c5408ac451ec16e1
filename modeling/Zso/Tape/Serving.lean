import Zso.Tape.QueueShape
import Zso.Tape.TapeCommands

/-!
# A section at work

`Sys.Runs` ties the specification of a command to the command the section is concerned
with: while the device executes it `I` holds, and when its result is reported `Q` does.

`Sys.Serving` relates a section to the flat disk it works for. It says how far the pending
request has come: it is being submitted, it waits behind EJECT commands, or one of its
commands is at the head of the queue. Each kind of step keeps it: `Sys.Serving.link`,
`Sys.Serving.complete`, `Sys.Serving.splice`, `Sys.Serving.atHead`, `Sys.Serving.cpu`.
-/

namespace Zso.Tape
open Transition

variable {β : Type}

/-- The head `n` of the queue is the command `c`, which leads through `I` to `Q`. -/
structure Sys.Runs (s : Sys (realDevice β)) (n : LstNode) (c : Cmd) (I Q : Dev β → Prop) :
    Prop where
  word : n.word = c.encode
  executing : s.Executing n → I s.dev
  reported : ∀ st, s.Reported n st → Settles c st ∧ Q s.dev

section
variable {s t : Sys (realDevice β)} {n : LstNode} {c : Cmd} {P I Q I' Q' : Dev β → Prop}
  {info : SectionInfo} {buf : Nat → Nat}

/-- What the device is concerned with is a matter of its side of the state only. -/
theorem Sys.Runs.congr (h : s.Runs n c I Q) (hdev : t.dev = s.dev) (hd : t.done = s.done)
    (he : t.error = s.error) (hc : t.cur = s.cur) (hl : lastReport t.log = lastReport s.log) :
    t.Runs n c I Q where
  word := h.word
  executing hx := by
    rw [hdev]
    exact h.executing ⟨hdev ▸ hx.exec, hc ▸ hx.cur, hd ▸ hx.done, he ▸ hx.error⟩
  reported st hx := by
    rw [hdev]
    exact h.reported st ⟨hdev ▸ hx.resting, hc ▸ hx.cur, hdev ▸ hx.status, hd ▸ hx.done,
      he ▸ hx.error, hx.final, hdev ▸ hx.tape, hl ▸ hx.report⟩

theorem Sys.Runs.mono (h : s.Runs n c I Q) (hI : ∀ d, I d → I' d) (hQ : ∀ d, Q d → Q' d) :
    s.Runs n c I' Q' :=
  ⟨h.word, fun hx => hI _ (h.executing hx), fun st hx => (h.reported st hx).imp_right (hQ _)⟩

/-- An idle device is sent a command. -/
theorem Sys.runs_send (hi : s.dev.sec.aadg = .idle) (hm : s.dev.sec.Mounted info)
    (hc : Carries info buf c P I Q) (hp : P s.dev) (hw : n.word = c.encode) :
    (s.send n).Runs n c I Q := by
  have ho := hc.start s.dev hi hm hp
  rw [← hw] at ho
  have hidle : (realDevice β).idle s.dev = true := by simpa [realDevice] using hi
  refine ⟨hw, fun hx => ?_, fun st hx => ?_⟩
  · cases hans : ((realDevice β).write s.dev n.word).2 with
    | none =>
      have hdev : (s.send n).dev = ((realDevice β).write s.dev n.word).1 := by
        simp [Sys.send, hans, hidle]
      rw [hdev]
      exact ho.goes hans
    | some st =>
      have hcur := hx.cur
      simp [Sys.send, hans, Sys.answer] at hcur
  · cases hans : ((realDevice β).write s.dev n.word).2 with
    | none =>
      have hcur := hx.cur
      simp [Sys.send, hans, hidle] at hcur
    | some st' =>
      have hdev : (s.send n).dev = ((realDevice β).write s.dev n.word).1 := by
        simp [Sys.send, hans, Sys.answer]
      have hst : st = st' := by
        rw [← hx.status, hdev]
        exact ((realDevice β).write_refuse hidle hans).2.1
      rw [hdev, hst]
      exact ho.ends st' hans

/-- The device goes on with the head. -/
theorem Sys.Runs.goes (h : s.Runs n c I Q) (hm : s.dev.sec.Mounted info)
    (hc : Carries info buf c P I Q) {x : Io} (hx : x.Serves buf) {dev : Dev β}
    (ht : s.dev.move (.io x) = some (dev, none)) : Sys.Runs { s with dev := dev } n c I Q := by
  obtain ⟨hexec, hbusy, -, hstatus, htape⟩ :=
    (realDevice β).tick_goes (s := s.dev) (a := .io x) ht
  refine ⟨h.word, fun hx' => ?_, fun st hx' => ?_⟩
  · have hex := (hexec n.word).mpr hx'.exec
    have hI := h.executing ⟨hex, hx'.cur, hx'.done, hx'.error⟩
    rw [h.word] at hex
    exact (hc.step s.dev x _ hex hm hI hx ht).goes rfl
  · -- a device that rests does not move
    have hrest : s.dev.sec.aadg.busy = false := hbusy.symm.trans hx'.resting
    unfold Dev.move at ht
    rw [hrest] at ht
    cases ht

/-- The device completes the head. -/
theorem Sys.Runs.answer (h : s.Runs n c I Q) (hm : s.dev.sec.Mounted info)
    (hc : Carries info buf c P I Q) {x : Io} (hx : x.Serves buf) {dev : Dev β} {st : SectStatus}
    (ht : s.dev.move (.io x) = some (dev, some st)) (hex : s.Executing n) :
    ({ s with dev := dev }.answer (some n) st).Runs n c I Q := by
  refine ⟨h.word, fun hx' => ?_, fun st' hx' => ?_⟩
  · have hcur := hx'.cur
    simp [Sys.answer] at hcur
  · have hst : st' = st := by
      rw [← hx'.status]
      exact ((realDevice β).tick_ends (s := s.dev) (a := .io x) ht).2.2.1
    have hexec : s.dev.sec.Executes c.encode := h.word ▸ hex.exec
    rw [hst]
    exact (hc.step s.dev x _ hexec hm (h.executing hex) hx ht).ends st rfl

/-- The head is sent. -/
theorem Sys.runs_sendHead {rest : List LstNode} (hq : s.sec.cmdQueue = n :: rest)
    (hi : s.dev.sec.aadg = .idle) (hm : s.dev.sec.Mounted info) (hc : Carries info buf c P I Q)
    (hp : P s.dev) (hw : n.word = c.encode) : s.sendHead.Runs n c I Q := by
  unfold Sys.sendHead
  rw [hq]
  exact Sys.runs_send hi hm hc hp hw

/-- Linking to an empty queue sends the first command. -/
theorem Sys.runs_link_empty {nodes : List LstNode} (hq : s.sec.cmdQueue = [])
    (hi : s.dev.sec.aadg = .idle) (hm : s.dev.sec.Mounted info) (hc : Carries info buf c P I Q)
    (hp : P s.dev) (hw : n.word = c.encode) : (s.link (n :: nodes)).Runs n c I Q := by
  rw [Sys.link, hq]
  exact (Sys.runs_send hi hm hc hp hw).congr rfl rfl rfl rfl rfl

/-- Linking behind other commands. -/
theorem Sys.Runs.link {m : LstNode} {rest : List LstNode} (h : s.Runs m c I Q)
    (hq : s.sec.cmdQueue = m :: rest) (nodes : List LstNode) : (s.link nodes).Runs m c I Q := by
  rw [Sys.link, hq]
  exact h.congr rfl rfl rfl rfl rfl

end

/-! ## Requests -/

/-- The nodes of a request within one tape. -/
def Request.nodes (T r : Nat) (q : Request) : List LstNode :=
  (q.cmds T).map fun c => ⟨c.node, .request r⟩

/-- The section has a device of its geometry, which takes commands when it has none. -/
structure Sys.Ready (s : Sys (realDevice β)) : Prop where
  small : s.sec.info.Small
  mounted : s.dev.sec.Mounted s.sec.info
  idle : s.dev.sec.aadg.busy = false → s.dev.sec.aadg = .idle

/-- The head of the queue is an EJECT, which leaves the data alone. -/
structure Sys.Ejecting (s : Sys (realDevice β)) (f : Flat β) : Prop where
  empty : s.sec.cmdQueue = [] → s.dev.Still f
  head : ∀ n rest, s.sec.cmdQueue = n :: rest → s.Runs n .ejectTape (Dev.Still f) (Dev.Still f)

/-- The request `r` of the flat disk is the one of the section. -/
structure Sys.Owns (s : Sys (realDevice β)) (f : Flat β) (r : Nat) (q : Request) : Prop where
  pending : f.pending = some (r, q)
  outstanding : s.outstanding = some r
  req : s.sec.req = some r
  inTape : q.InTape s.sec.info

/-- How far the submission of the request has come. -/
def Sys.Submits (s : Sys (realDevice β)) (r : Nat) (q : Request) : Prop :=
  s.submit = .started r q.write q.start q.env ∨
  (∃ st, s.submit = .failed r st ∧ st ≠ .ok ∧ ¬ q.Allocated) ∨
  s.submit = .built r (q.nodes s.sec.info.blocksInTape r) ∧ q.Described s.sec.cpuDmaBuf

/-- The command with index `i` of the request is at the head of the queue. -/
structure Sys.At (s : Sys (realDevice β)) (f : Flat β) (r : Nat) (q : Request) (i : Nat)
    (post : List LstNode) : Prop where
  queue : s.sec.cmdQueue = (q.nodes s.sec.info.blocksInTape r).drop i ++ post
  post : IoctlNodes post
  head : ∃ n c, s.sec.cmdQueue.head? = some n ∧ (q.cmds s.sec.info.blocksInTape)[i]? = some c ∧
    s.Runs n c (q.Working s.sec.info.blocksInTape f i) (q.Stage s.sec.info.blocksInTape f (i + 1))

/-- The section works for the flat disk `f`. -/
inductive Sys.Serving (s : Sys (realDevice β)) (f : Flat β) : Prop
  | free : f.pending = none → s.outstanding = none → s.submit = .idle →
      IoctlNodes s.sec.cmdQueue → s.Ejecting f → Serving s f
  | submitting (r : Nat) (q : Request) : s.Owns f r q → s.Submits r q →
      IoctlNodes s.sec.cmdQueue → s.Ejecting f → Serving s f
  /-- EJECT commands are in front of the request -/
  | queued (r : Nat) (q : Request) (pre post : List LstNode) : s.Owns f r q →
      s.submit = .idle → q.Described s.sec.cpuDmaBuf →
      s.sec.cmdQueue = pre ++ q.nodes s.sec.info.blocksInTape r ++ post →
      pre ≠ [] → IoctlNodes pre → IoctlNodes post → s.Ejecting f → Serving s f
  | served (r : Nat) (q : Request) (i : Nat) (post : List LstNode) : s.Owns f r q →
      s.submit = .idle → q.Described s.sec.cpuDmaBuf → s.At f r q i post → Serving s f

section
variable {s t : Sys (realDevice β)} {f g : Flat β} {r i : Nat} {q : Request}
  {pre post rest : List LstNode} {n : LstNode}

theorem IoctlNodes.word (h : IoctlNodes (n :: rest)) : n.word = Cmd.ejectTape.encode := by
  obtain ⟨c, rfl⟩ := h n List.mem_cons_self
  rfl

theorem IoctlNodes.tail (h : IoctlNodes (n :: rest)) : IoctlNodes rest :=
  fun m hm => h m (List.mem_cons_of_mem _ hm)

/-- The EJECT of an ioctl leaves the data alone. -/
theorem carries_ioctl (info : SectionInfo) (buf : Nat → Nat) :
    Carries info buf .ejectTape (Dev.Still f) (Dev.Still f) (Dev.Still f) where
  start d hi hm hp :=
    have h := (carries_eject : Carries info buf _ (Dev.Still f) _ _).start d hi hm hp
    ⟨h.goes, fun st hst => (h.ends st hst).imp_right And.left⟩
  step d x r hex hm hp hx hr :=
    have h := carries_eject.step d x r hex hm hp hx hr
    ⟨h.goes, fun st hst => (h.ends st hst).imp_right And.left⟩

theorem Request.length_nodes (T r : Nat) (q : Request) : (q.nodes T r).length = 5 := rfl

/-- The command with index `i` and its node. -/
theorem Request.drop_nodes (T r : Nat) (q : Request) (hi : i < 5) :
    ∃ c, (q.cmds T)[i]? = some c ∧
      (q.nodes T r).drop i = ⟨c.node, .request r⟩ :: (q.nodes T r).drop (i + 1) := by
  have hlt : i < (q.cmds T).length := hi
  refine ⟨(q.cmds T)[i], List.getElem?_eq_getElem hlt, ?_⟩
  unfold Request.nodes
  rw [List.drop_eq_getElem_cons (by simpa using hlt)]
  simp

/-! ## Steps that concern neither the queue nor the device -/

/-- The states differ in nothing a request depends on. -/
structure Sys.Alike (s t : Sys (realDevice β)) : Prop where
  queue : t.sec.cmdQueue = s.sec.cmdQueue
  info : t.sec.info = s.sec.info
  req : t.sec.req = s.sec.req
  buf : t.sec.cpuDmaBuf = s.sec.cpuDmaBuf
  submit : t.submit = s.submit
  outstanding : t.outstanding = s.outstanding
  dev : t.dev = s.dev
  done : t.done = s.done
  error : t.error = s.error
  cur : t.cur = s.cur
  report : lastReport t.log = lastReport s.log

theorem Sys.Alike.runs (ht : s.Alike t) {c : Cmd} {I Q : Dev β → Prop} (h : s.Runs n c I Q) :
    t.Runs n c I Q :=
  h.congr ht.dev ht.done ht.error ht.cur ht.report

theorem Sys.Ejecting.congr (h : s.Ejecting f) (hq : t.sec.cmdQueue = s.sec.cmdQueue)
    (hdev : t.dev = s.dev) (hd : t.done = s.done) (he : t.error = s.error) (hc : t.cur = s.cur)
    (hl : lastReport t.log = lastReport s.log) : t.Ejecting f where
  empty h0 := by
    rw [hdev]
    exact h.empty (hq ▸ h0)
  head n rest h0 := (h.head n rest (hq ▸ h0)).congr hdev hd he hc hl

theorem Sys.Alike.ejecting (ht : s.Alike t) (h : s.Ejecting f) : t.Ejecting f :=
  h.congr ht.queue ht.dev ht.done ht.error ht.cur ht.report

theorem Sys.Owns.congr (h : s.Owns f r q) (ho : t.outstanding = s.outstanding)
    (hr : t.sec.req = s.sec.req) (hi : t.sec.info = s.sec.info) : t.Owns f r q :=
  ⟨h.pending, ho.trans h.outstanding, hr.trans h.req, hi ▸ h.inTape⟩

theorem Sys.Submits.congr (h : s.Submits r q) (hs : t.submit = s.submit)
    (hi : t.sec.info = s.sec.info) (hb : t.sec.cpuDmaBuf = s.sec.cpuDmaBuf) : t.Submits r q := by
  unfold Sys.Submits
  rw [hs, hi, hb]
  exact h

theorem Sys.Alike.serving (ht : s.Alike t) (h : s.Serving f) : t.Serving f := by
  cases h with
  | free hp ho hs hq he =>
    exact .free hp (ht.outstanding.trans ho) (ht.submit.trans hs) (ht.queue ▸ hq) (ht.ejecting he)
  | submitting r q ho hs hq he =>
    exact .submitting r q (ho.congr ht.outstanding ht.req ht.info)
      (hs.congr ht.submit ht.info ht.buf) (ht.queue ▸ hq) (ht.ejecting he)
  | queued r q pre post ho hs hb hq hne hpre hpost he =>
    refine .queued r q pre post (ho.congr ht.outstanding ht.req ht.info) (ht.submit.trans hs)
      (ht.buf ▸ hb) ?_ hne hpre hpost (ht.ejecting he)
    rw [ht.queue, ht.info, hq]
  | served r q i post ho hs hb ha =>
    refine .served r q i post (ho.congr ht.outstanding ht.req ht.info) (ht.submit.trans hs)
      (ht.buf ▸ hb) ⟨?_, ha.post, ?_⟩
    · rw [ht.queue, ht.info, ha.queue]
    · obtain ⟨n, c, hn, hc, hruns⟩ := ha.head
      rw [ht.queue, ht.info]
      exact ⟨n, c, hn, hc, ht.runs hruns⟩

/-! ## Linking -/

theorem Sys.Ejecting.link (h : s.Ejecting f) (hr : s.Ready)
    (hi : s.sec.cmdQueue = [] → s.dev.sec.aadg = .idle) (c : Nat) :
    (s.link [ioctlNode c]).Ejecting f where
  empty hq := by simp at hq
  head n rest hq := by
    rw [Sys.link_sec] at hq
    cases hq' : s.sec.cmdQueue with
    | nil =>
      rw [hq'] at hq
      cases hq
      exact Sys.runs_link_empty hq' (hi hq') hr.mounted
        (carries_ioctl s.sec.info s.sec.cpuDmaBuf) (h.empty hq') rfl
    | cons m q =>
      rw [hq'] at hq
      cases hq
      exact (h.head _ _ hq').link hq' _

/-- An EJECT ioctl is linked behind whatever is queued. -/
theorem Sys.Serving.link (h : s.Serving f) (hr : s.Ready)
    (hi : s.sec.cmdQueue = [] → s.dev.sec.aadg = .idle) (c : Nat) :
    (s.link [ioctlNode c]).Serving f := by
  have hinfo : (s.link [ioctlNode c]).sec.info = s.sec.info := by rw [Sys.link_sec]
  have hreq : (s.link [ioctlNode c]).sec.req = s.sec.req := by rw [Sys.link_sec]
  have hbuf : (s.link [ioctlNode c]).sec.cpuDmaBuf = s.sec.cpuDmaBuf := by rw [Sys.link_sec]
  have hque : (s.link [ioctlNode c]).sec.cmdQueue = s.sec.cmdQueue ++ [ioctlNode c] := by
    rw [Sys.link_sec]
  have ho := Sys.link_outstanding s [ioctlNode c]
  have hs := Sys.link_submit s [ioctlNode c]
  cases h with
  | free hp hout hsub hq he =>
    exact .free hp (ho.trans hout) (hs.trans hsub) (hque ▸ hq.append (IoctlNodes.single c))
      (he.link hr hi c)
  | submitting r q hown hsub hq he =>
    exact .submitting r q (hown.congr ho hreq hinfo) (hsub.congr hs hinfo hbuf)
      (hque ▸ hq.append (IoctlNodes.single c)) (he.link hr hi c)
  | queued r q pre post hown hsub hb hq hne hpre hpost he =>
    refine .queued r q pre (post ++ [ioctlNode c]) (hown.congr ho hreq hinfo) (hs.trans hsub)
      (hbuf ▸ hb) ?_ hne hpre (hpost.append (IoctlNodes.single c)) (he.link hr hi c)
    rw [hque, hinfo, hq, List.append_assoc _ post]
  | served r q i post hown hsub hb ha =>
    refine .served r q i (post ++ [ioctlNode c]) (hown.congr ho hreq hinfo) (hs.trans hsub)
      (hbuf ▸ hb) ⟨?_, ha.post.append (IoctlNodes.single c), ?_⟩
    · rw [hque, hinfo, ha.queue, List.append_assoc]
    · obtain ⟨n, c', hn, hc, hruns⟩ := ha.head
      obtain ⟨rest, hrest⟩ := List.head?_eq_some_iff.mp hn
      rw [hque, hinfo]
      exact ⟨n, c', by rw [hrest]; rfl, hc, hruns.link hrest _⟩

/-! ## The handler -/

/-- The result of the head lets the driver go on. -/
theorem Sys.completed_next {st : SectStatus} (hst : st = .done ∨ st = .errNoTape)
    (hlast : ¬ (st = .done ∧ lastOfRequest n rest = true)) :
    (s.completed n rest st).sec.cmdQueue = rest ∧ (s.completed n rest st).sec.req = s.sec.req ∧
    (s.completed n rest st).outstanding = s.outstanding ∧ (s.completed n rest st).log = s.log := by
  unfold Sys.completed completeHead
  rcases hst with rfl | rfl
  · have hl : lastOfRequest n rest = false := by simpa using hlast
    simp [hl]
  · simp

/-- The last command of a request is done. -/
theorem Sys.completed_last (hlast : lastOfRequest n rest = true) (hreq : s.sec.req = some r) :
    (s.completed n rest .done).sec.cmdQueue = rest ∧
    (s.completed n rest .done).outstanding = none ∧
    (s.completed n rest .done).log = s.log ++ [.ended r .ok (some r)] := by
  simp [Sys.completed, completeHead, hlast, hreq, endEvents, Event.endsRequest]

theorem Settles.status {c : Cmd} {st : SectStatus} (h : Settles c st) :
    st = .done ∨ st = .errNoTape :=
  h.imp_right And.left

/-- The next EJECT is sent, if there is one. -/
theorem Sys.Ejecting.sendHead (hr : s.Ready) (hi : s.dev.sec.aadg = .idle) (hd : s.dev.Still f)
    (hw : ∀ n rest, s.sec.cmdQueue = n :: rest → n.word = Cmd.ejectTape.encode) :
    s.sendHead.Ejecting f where
  empty hq := by
    unfold Sys.sendHead at hq ⊢
    rw [Sys.sendOpt_sec] at hq
    rw [hq]
    exact hd
  head n rest hq := by
    have hq' : s.sec.cmdQueue = n :: rest := by simpa using hq
    exact Sys.runs_sendHead hq' hi hr.mounted (carries_ioctl s.sec.info s.sec.cpuDmaBuf) hd
      (hw n rest hq')

/-- A command of the request is sent. -/
theorem Sys.At.sendHead (hr : s.Ready) (hi : s.dev.sec.aadg = .idle) (hin : q.InTape s.sec.info)
    (hb : q.Described s.sec.cpuDmaBuf) (hi5 : i < 5)
    (hd : q.Stage s.sec.info.blocksInTape f i s.dev) (hpost : IoctlNodes post)
    (hq : s.sec.cmdQueue = (q.nodes s.sec.info.blocksInTape r).drop i ++ post) :
    s.sendHead.At f r q i post := by
  obtain ⟨c, hc, hdrop⟩ := q.drop_nodes s.sec.info.blocksInTape r hi5
  have hsec : s.sendHead.sec = s.sec := by simp
  refine ⟨by rw [hsec]; exact hq, hpost, ?_⟩
  rw [hsec]
  refine ⟨⟨c.node, .request r⟩, c, by rw [hq, hdrop]; rfl, hc, ?_⟩
  rw [hdrop] at hq
  exact Sys.runs_sendHead hq hi hr.mounted (carries hin hr.small hb hc) hd rfl

theorem Sys.Ready.completed (h : s.Ready) (st : SectStatus) : (s.completed n rest st).Ready := by
  obtain ⟨hinfo, -⟩ := completeHead_frame s.sec n rest st
  have hinfo' : (s.completed n rest st).sec.info = s.sec.info := hinfo
  exact ⟨hinfo' ▸ h.small, hinfo' ▸ h.mounted, h.idle⟩

/-- An ioctl command is never the last one of a request. -/
theorem IoctlNodes.not_last (h : IoctlNodes (n :: pre)) (st : SectStatus) :
    ¬ (st = .done ∧ lastOfRequest n rest = true) := by
  have hio := h.isIoctl n List.mem_cons_self
  simp [lastOfRequest, hio]

theorem Request.notIoctl_nodes (T r : Nat) (q : Request) : ∀ m ∈ q.nodes T r, m.isIoctl = false := by
  intro m hm
  obtain ⟨c, -, rfl⟩ := List.mem_map.mp hm
  rfl

/-- What the handler does to the request: nothing, or it ends it. -/
def Sys.Ends (s u : Sys (realDevice β)) (f f' : Flat β) : Prop :=
  f' = f ∧ u.log = s.log ∨
  ∃ r q, f.pending = some (r, q) ∧ q.Moves q.blocks f f' ∧ f'.pending = none ∧
    u.log = s.log ++ [.ended r .ok (some r)]

/-- The handler deals with the result of an EJECT in front of the request. -/
theorem Sys.Ejecting.complete {st : SectStatus} (h : s.Ejecting f)
    (hq : s.sec.cmdQueue = n :: rest) (hrep : s.Reported n st) (hio : IoctlNodes (n :: pre)) :
    s.dev.Still f ∧ (s.completed n rest st).sec.cmdQueue = rest ∧
    (s.completed n rest st).sec.req = s.sec.req ∧
    (s.completed n rest st).outstanding = s.outstanding ∧ (s.completed n rest st).log = s.log := by
  obtain ⟨hst, hd⟩ := (h.head n rest hq).reported st hrep
  exact ⟨hd, Sys.completed_next hst.status (hio.not_last st)⟩

/-- The device rests, and the handler has dealt with the head. -/
theorem Sys.Ready.resting {st : SectStatus} (hr : s.Ready) (hrep : s.Reported n st)
    (rest : List LstNode) : (s.completed n rest st).dev.sec.aadg = .idle :=
  hr.idle hrep.resting

/-- The next EJECT is sent. -/
theorem Sys.Ejecting.next {st : SectStatus} (h : s.Ejecting f) (hr : s.Ready)
    (hq : s.sec.cmdQueue = n :: rest) (hrep : s.Reported n st) (hio : IoctlNodes (n :: pre))
    (hnext : ∀ m rest', rest = m :: rest' → m.word = Cmd.ejectTape.encode) :
    (s.completed n rest st).sendHead.Ejecting f := by
  obtain ⟨hd, hqueue, -⟩ := h.complete hq hrep hio
  refine Sys.Ejecting.sendHead (hr.completed st) (hr.resting hrep rest) hd fun m rest' hm => ?_
  exact hnext m rest' (hqueue.symm.trans hm)

/-- The request is the same after the handler has dealt with a command that does not end it. -/
theorem Sys.Owns.completed {st : SectStatus} (h : s.Owns f r q)
    (ho : (s.completed n rest st).outstanding = s.outstanding)
    (hreq : (s.completed n rest st).sec.req = s.sec.req) :
    (s.completed n rest st).sendHead.Owns f r q := by
  refine h.congr (by rw [Sys.sendHead_outstanding, ho]) (by rw [Sys.sendHead_sec, hreq]) ?_
  rw [Sys.sendHead_sec]
  exact (completeHead_frame s.sec n rest st).1

/-- The head of the queue is the command with index `i`, and the others follow. -/
theorem Sys.At.head_eq (h : s.At f r q i post) (hq : s.sec.cmdQueue = n :: rest) :
    ∃ c, (q.cmds s.sec.info.blocksInTape)[i]? = some c ∧ i < 5 ∧
      s.Runs n c (q.Working s.sec.info.blocksInTape f i)
        (q.Stage s.sec.info.blocksInTape f (i + 1)) ∧
      rest = (q.nodes s.sec.info.blocksInTape r).drop (i + 1) ++ post ∧
      lastOfRequest n rest = decide (5 ≤ i + 1) := by
  obtain ⟨m, c, hm, hc, hruns⟩ := h.head
  have hi5 : i < 5 := (List.getElem?_eq_some_iff.mp hc).1
  obtain ⟨c', -, hdrop⟩ := q.drop_nodes s.sec.info.blocksInTape r hi5
  have hqs := h.queue
  rw [hq, hdrop, List.cons_append] at hqs
  obtain ⟨hn, hrest⟩ := List.cons.inj hqs
  rw [hq] at hm
  obtain rfl := Option.some.inj hm
  refine ⟨c, hc, hi5, hruns, hrest, ?_⟩
  have hlast : lastOfRequest n rest = ((q.nodes s.sec.info.blocksInTape r).drop (i + 1)).isEmpty := by
    rw [hrest]
    exact lastOfRequest_append (by rw [hn]; rfl)
      (fun m hm => q.notIoctl_nodes _ r m (List.mem_of_mem_drop hm)) h.post
  rw [hlast, Bool.eq_iff_iff, List.isEmpty_iff, List.drop_eq_nil_iff, q.length_nodes,
    decide_eq_true_iff]

/-- The handler deals with a command of the request: the next one is sent, or the request is
ended. -/
theorem Sys.At.complete {st : SectStatus} (h : s.At f r q i post) (hown : s.Owns f r q)
    (hs : s.submit = .idle) (hb : q.Described s.sec.cpuDmaBuf) (hr : s.Ready)
    (hq : s.sec.cmdQueue = n :: rest) (hrep : s.Reported n st) :
    (s.completed n rest st).sec.cmdQueue = rest ∧
      ∃ f', (s.completed n rest st).sendHead.Serving f' ∧ s.Ends (s.completed n rest st) f f' := by
  obtain ⟨hinfo, hbuf⟩ : (s.completed n rest st).sec.info = s.sec.info ∧
      (s.completed n rest st).sec.cpuDmaBuf = s.sec.cpuDmaBuf :=
    completeHead_frame s.sec n rest st
  have hr' : (s.completed n rest st).Ready := hr.completed st
  have hi := hr.resting hrep rest
  have hsub : (s.completed n rest st).sendHead.submit = .idle := (Sys.sendHead_submit _).trans hs
  obtain ⟨c, hc, hi5, hruns, hrest, hlast⟩ := h.head_eq hq
  obtain ⟨hst, hd⟩ := hruns.reported st hrep
  by_cases hi4 : i + 1 < 5
  · have hnot : ¬ (st = .done ∧ lastOfRequest n rest = true) := by
      rintro ⟨-, htrue⟩
      rw [hlast, decide_eq_true_iff] at htrue
      omega
    obtain ⟨hqueue, hreq, ho, hlog⟩ := Sys.completed_next (s := s) hst.status hnot
    refine ⟨hqueue, f, .served r q (i + 1) post (hown.completed ho hreq) hsub
      (by rw [Sys.sendHead_sec, hbuf]; exact hb) ?_, .inl ⟨rfl, hlog⟩⟩
    refine Sys.At.sendHead hr' hi (hinfo ▸ hown.inTape) (hbuf ▸ hb) hi4 (hinfo ▸ hd) h.post ?_
    rw [hqueue, hinfo, hrest]
  · -- the transfer is done, and with it the request
    obtain rfl : i = 4 := by omega
    have hdone : st = .done := by
      cases hc
      exact hst.resolve_right (by rintro ⟨-, ⟨⟩⟩)
    subst hdone
    obtain ⟨hqueue, ho, hlog⟩ := Sys.completed_last (s := s) (hlast.trans rfl) hown.req
    have hpost : rest = post := by
      rw [hrest, List.drop_eq_nil_iff.mpr (by rw [q.length_nodes])]
      rfl
    refine ⟨hqueue, s.dev.flat, .free rfl ((Sys.sendHead_outstanding _).trans ho) hsub ?_ ?_,
      .inr ⟨r, q, hown.pending, hd, rfl, hlog⟩⟩
    · rw [Sys.sendHead_sec, hqueue, hpost]
      exact h.post
    · refine Sys.Ejecting.sendHead hr' hi ⟨rfl, rfl⟩ fun m' rest' hm => ?_
      rw [hqueue, hpost] at hm
      exact IoctlNodes.word (hm ▸ h.post)

/-- The handler deals with the result of the head. -/
theorem Sys.Serving.complete {st : SectStatus} (h : s.Serving f) (hr : s.Ready)
    (hq : s.sec.cmdQueue = n :: rest) (hrep : s.Reported n st) :
    (s.completed n rest st).sec.cmdQueue = rest ∧
      ∃ f', (s.completed n rest st).sendHead.Serving f' ∧ s.Ends (s.completed n rest st) f f' := by
  obtain ⟨hinfo, hbuf⟩ : (s.completed n rest st).sendHead.sec.info = s.sec.info ∧
      (s.completed n rest st).sendHead.sec.cpuDmaBuf = s.sec.cpuDmaBuf := by
    rw [Sys.sendHead_sec]
    exact completeHead_frame s.sec n rest st
  have hsub : (s.completed n rest st).sendHead.submit = s.submit := Sys.sendHead_submit _
  cases h with
  | free hp ho hs hqio he =>
    rw [hq] at hqio
    obtain ⟨-, hqueue, -, ho', hlog⟩ := he.complete hq hrep hqio
    refine ⟨hqueue, f, .free hp (by rw [Sys.sendHead_outstanding, ho', ho]) (hsub.trans hs) ?_
      (he.next hr hq hrep hqio fun m rest' hm => IoctlNodes.word (hm ▸ hqio.tail)),
      .inl ⟨rfl, hlog⟩⟩
    rw [Sys.sendHead_sec, hqueue]
    exact hqio.tail
  | submitting r q hown hs hqio he =>
    rw [hq] at hqio
    obtain ⟨-, hqueue, hreq, ho', hlog⟩ := he.complete hq hrep hqio
    refine ⟨hqueue, f, .submitting r q (hown.completed ho' hreq) (hs.congr hsub hinfo hbuf) ?_
      (he.next hr hq hrep hqio fun m rest' hm => IoctlNodes.word (hm ▸ hqio.tail)),
      .inl ⟨rfl, hlog⟩⟩
    rw [Sys.sendHead_sec, hqueue]
    exact hqio.tail
  | queued r q pre post hown hs hb hqs hne hpre hpost he =>
    obtain ⟨m, pre, rfl⟩ := List.exists_cons_of_ne_nil hne
    rw [hq, List.cons_append, List.cons_append] at hqs
    obtain ⟨rfl, hrest⟩ := List.cons.inj hqs
    obtain ⟨hd, hqueue, hreq, ho', hlog⟩ := he.complete hq hrep hpre
    have hown' := hown.completed ho' hreq
    cases pre with
    | nil =>
      -- the request is next
      refine ⟨hqueue, f, .served r q 0 post hown' (hsub.trans hs) (hbuf ▸ hb) ?_, .inl ⟨rfl, hlog⟩⟩
      rw [Sys.sendHead_sec] at hinfo hbuf
      refine Sys.At.sendHead (hr.completed st) (hr.resting hrep rest) (hinfo ▸ hown.inTape)
        (hbuf ▸ hb) (by decide) hd hpost ?_
      rw [hqueue, hinfo, hrest]
      rfl
    | cons m pre =>
      refine ⟨hqueue, f, .queued r q (m :: pre) post hown' (hsub.trans hs) (hbuf ▸ hb) ?_
        (List.cons_ne_nil _ _) hpre.tail hpost (he.next hr hq hrep hpre fun m' rest' hm => ?_),
        .inl ⟨rfl, hlog⟩⟩
      · rw [hinfo, Sys.sendHead_sec, hqueue, hrest]
      · rw [hrest] at hm
        cases hm
        exact hpre.tail.word
  | served r q i post hown hs hb ha => exact ha.complete hown hs hb hr hq hrep

/-! ## The submission -/

/-- What still holds does so for another request. -/
theorem Dev.Still.pending {d : Dev β} (h : d.Still f) (x : Option (Nat × Request)) :
    d.Still { f with pending := x } := ⟨h.disk, h.mem⟩

theorem Sys.Ejecting.pending (h : s.Ejecting f) (x : Option (Nat × Request)) :
    s.Ejecting { f with pending := x } :=
  ⟨fun hq => (h.empty hq).pending x,
    fun n rest hq => (h.head n rest hq).mono (fun _ hd => hd.pending x) fun _ hd => hd.pending x⟩

/-- Planning has filled the page table with the segments of the request. -/
theorem Request.described_tableOf (q : Request) (pgt : Nat → Nat) :
    q.Described (tableOf pgt q.entries) := by
  intro i e he
  simp [tableOf, he]

/-- The commands of the request are linked. -/
theorem Sys.Serving.splice (hown : s.Owns f r q) (hq : IoctlNodes s.sec.cmdQueue)
    (he : s.Ejecting f) (hb : q.Described s.sec.cpuDmaBuf) (hr : s.Ready)
    (hi : s.sec.cmdQueue = [] → s.dev.sec.aadg = .idle) {nodes : List LstNode}
    (hn : nodes = q.nodes s.sec.info.blocksInTape r)
    (ht : t = { s.link nodes with submit := .idle, built := nodes }) : t.Serving f := by
  have hsec : t.sec = { s.sec with cmdQueue := s.sec.cmdQueue ++ nodes } := by
    rw [ht]
    exact Sys.link_sec s nodes
  have hown' : t.Owns f r q :=
    hown.congr (by rw [ht]; exact Sys.link_outstanding s nodes) (by rw [hsec]) (by rw [hsec])
  have hsub : t.submit = .idle := by rw [ht]
  have hbuf : q.Described t.sec.cpuDmaBuf := by
    rw [hsec]
    exact hb
  have hinfo : t.sec.info = s.sec.info := by rw [hsec]
  cases hq' : s.sec.cmdQueue with
  | nil =>
    obtain ⟨c, hc, hdrop⟩ := q.drop_nodes s.sec.info.blocksInTape r (i := 0) (by decide)
    rw [List.drop_zero] at hdrop
    have hqueue : t.sec.cmdQueue = q.nodes s.sec.info.blocksInTape r := by
      rw [hsec, hq', hn]
      rfl
    have hruns : (s.link nodes).Runs ⟨c.node, .request r⟩ c
        (q.Working s.sec.info.blocksInTape f 0) (q.Stage s.sec.info.blocksInTape f 1) := by
      rw [hn, hdrop]
      exact Sys.runs_link_empty hq' (hi hq') hr.mounted
        (carries hown.inTape hr.small hb hc) (he.empty hq') rfl
    refine .served r q 0 [] hown' hsub hbuf ⟨?_, by rintro n ⟨⟩, ?_⟩
    · rw [hqueue, hinfo, List.drop_zero, List.append_nil]
    · rw [hqueue, hinfo]
      refine ⟨_, c, by rw [hdrop]; rfl, hc, ?_⟩
      rw [ht]
      exact hruns.congr rfl rfl rfl rfl rfl
  | cons m rest =>
    refine .queued r q (m :: rest) [] hown' hsub hbuf ?_ (List.cons_ne_nil _ _) (hq' ▸ hq)
      (by rintro n ⟨⟩) ⟨fun h => ?_, fun n rest' h => ?_⟩
    · rw [hsec, hq', hn, List.append_nil]
    · rw [hsec, hq'] at h
      cases h
    · rw [hsec, hq'] at h
      cases h
      have hruns := (he.head _ _ hq').link hq' nodes
      rw [ht]
      exact hruns.congr rfl rfl rfl rfl rfl

/-! ## The device -/

/-- The device does something to the head. -/
theorem Sys.Serving.atHead (h : s.Serving f) (hr : s.Ready) (hq : s.sec.cmdQueue = n :: rest)
    (hsec : t.sec = s.sec) (hsub : t.submit = s.submit) (ho : t.outstanding = s.outstanding)
    (hstep : ∀ c P I Q, Carries s.sec.info s.sec.cpuDmaBuf c P I Q → s.Runs n c I Q →
      t.Runs n c I Q) : t.Serving f := by
  have heject : s.Ejecting f → t.Ejecting f := by
    intro he
    refine ⟨fun h0 => ?_, fun m rest' hm => ?_⟩
    · rw [hsec, hq] at h0
      cases h0
    · rw [hsec, hq] at hm
      cases hm
      exact hstep _ _ _ _ (carries_ioctl _ _) (he.head n rest hq)
  cases h with
  | free hp hout hs hqio he =>
    exact .free hp (ho.trans hout) (hsub.trans hs) (hsec ▸ hqio) (heject he)
  | submitting r q hown hs hqio he =>
    exact .submitting r q (hown.congr ho (by rw [hsec]) (by rw [hsec]))
      (hs.congr hsub (by rw [hsec]) (by rw [hsec])) (hsec ▸ hqio) (heject he)
  | queued r q pre post hown hs hb hqs hne hpre hpost he =>
    exact .queued r q pre post (hown.congr ho (by rw [hsec]) (by rw [hsec])) (hsub.trans hs)
      (hsec ▸ hb) (hsec ▸ hqs) hne hpre hpost (heject he)
  | served r q i post hown hs hb ha =>
    refine .served r q i post (hown.congr ho (by rw [hsec]) (by rw [hsec])) (hsub.trans hs)
      (hsec ▸ hb) ⟨hsec ▸ ha.queue, ha.post, ?_⟩
    obtain ⟨m, c, hm, hc, hruns⟩ := ha.head
    rw [hq] at hm
    obtain rfl := Option.some.inj hm
    rw [hsec]
    exact ⟨n, c, by rw [hq]; rfl, hc, hstep _ _ _ _ (carries hown.inTape hr.small hb hc) hruns⟩

/-! ## The CPU -/

section
variable {d : Dev β} {mem : Nat → β} {T k : Nat}

theorem Dev.Still.cpu (h : d.Still f) (hkeep : ∀ a ∈ f.lent, mem a = d.mem a) :
    Dev.Still (f.cpu mem) { d with mem := mem } := by
  refine ⟨h.disk, funext fun a => ?_⟩
  show mem a = if a ∈ f.lent then f.mem a else mem a
  split
  · next ha => rw [hkeep a ha, h.mem]
  · rfl

theorem Request.Stage.cpu (h : q.Stage T f i d) (hp : f.pending = some (r, q))
    (hkeep : ∀ a ∈ f.lent, mem a = d.mem a) : q.Stage T (f.cpu mem) i { d with mem := mem } := by
  unfold Request.Stage at h ⊢
  split at h
  · exact h.cpu hkeep
  · exact ⟨h.1.cpu hkeep, h.2⟩
  · exact ⟨h.1.cpu hkeep, h.2⟩
  · exact ⟨h.1.cpu hkeep, h.2⟩
  · exact ⟨h.1.cpu hkeep, h.2⟩
  · exact Request.Moves.cpu h hp (fun _ hb => hb) hkeep

theorem Request.Working.cpu (h : q.Working T f i d) (hp : f.pending = some (r, q))
    (hkeep : ∀ a ∈ f.lent, mem a = d.mem a) : q.Working T (f.cpu mem) i { d with mem := mem } := by
  unfold Request.Working at h ⊢
  split
  · next hi =>
    rw [if_pos hi] at h
    obtain ⟨k, hk⟩ := h
    exact ⟨k, hk.tape, hk.pos, hk.moved, hk.left, hk.lt, hk.offset, hk.walk,
      Request.Moves.cpu hk.moves hp (fun _ hb => List.mem_of_mem_take hb) hkeep⟩
  · next hi =>
    rw [if_neg hi] at h
    exact Request.Stage.cpu h hp hkeep

theorem Sys.Runs.cpu {c : Cmd} {I Q I' Q' : Dev β → Prop} (h : s.Runs n c I Q)
    (hI : I s.dev → I' { s.dev with mem := mem }) (hQ : Q s.dev → Q' { s.dev with mem := mem }) :
    Sys.Runs { s with dev := { s.dev with mem := mem } } n c I' Q' :=
  ⟨h.word, fun hx => hI (h.executing ⟨hx.exec, hx.cur, hx.done, hx.error⟩),
    fun st hx => (h.reported st ⟨hx.resting, hx.cur, hx.status, hx.done, hx.error, hx.final, hx.tape,
      hx.report⟩).imp_right hQ⟩

/-- The CPU writes to memory that is not lent. -/
theorem Sys.Serving.cpu (h : s.Serving f) (hkeep : ∀ a ∈ f.lent, mem a = s.dev.mem a) :
    Sys.Serving { s with dev := { s.dev with mem := mem } } (f.cpu mem) := by
  have heject : s.Ejecting f →
      Sys.Ejecting { s with dev := { s.dev with mem := mem } } (f.cpu mem) := fun he =>
    ⟨fun hq => (he.empty hq).cpu hkeep,
      fun m rest hm => (he.head m rest hm).cpu (fun hd => hd.cpu hkeep) fun hd => hd.cpu hkeep⟩
  have hown : ∀ {r q}, s.Owns f r q →
      Sys.Owns { s with dev := { s.dev with mem := mem } } (f.cpu mem) r q := fun h =>
    ⟨h.pending, h.outstanding, h.req, h.inTape⟩
  cases h with
  | free hp hout hs hqio he => exact .free hp hout hs hqio (heject he)
  | submitting r q ho hs hqio he => exact .submitting r q (hown ho) hs hqio (heject he)
  | queued r q pre post ho hs hb hqs hne hpre hpost he =>
    exact .queued r q pre post (hown ho) hs hb hqs hne hpre hpost (heject he)
  | served r q i post ho hs hb ha =>
    refine .served r q i post (hown ho) hs hb ⟨ha.queue, ha.post, ?_⟩
    obtain ⟨m, c, hm, hc, hruns⟩ := ha.head
    exact ⟨m, c, hm, hc, hruns.cpu (fun hd => hd.cpu ho.pending hkeep)
      fun hd => hd.cpu ho.pending hkeep⟩

end

end

end Zso.Tape

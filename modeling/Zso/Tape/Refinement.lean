import Zso.Tape.CurrentTape
import Zso.Tape.Serving

/-!
# A section refines the flat disk

The section with the device of `tapedev.c`, for requests within one tape. Whatever the
order in which the submitting thread, the interrupt handler, the EJECT ioctls, the device
and the CPU take their steps, the section does what the flat disk does.
-/

namespace Zso.Tape
open Transition

variable {β : Type}

/-- An initialised section whose registers are as the driver has found them. -/
structure Sys.Fitted (s : Sys (realDevice β)) : Prop extends s.Initial where
  small : s.sec.info.Small
  mounted : s.dev.sec.Mounted s.sec.info

/-- A section of 512-byte blocks and less than 4 GiB. -/
def smallSystem (β : Type) : Lts (Sys (realDevice β)) (Label (realDevice β)) :=
  systemFrom (realDevice β) Sys.Fitted

/-- READ and WRITE requests lie within one tape, the host accesses of the device succeed, and
no other section uses the line. -/
def WithinTapes (s : Sys (realDevice β)) : Label (realDevice β) → Prop
  | .queueRq op start env => ∃ write, op = some write ∧ Request.InTape s.sec.info ⟨write, start, env⟩
  | .tick (.io x) => x.Serves s.sec.cpuDmaBuf
  | .otherLine _ => False
  | _ => True

/-! ## What can be seen of a step -/

def Event.ending : Event → Option (Nat × BlkStatus)
  | .ended r st _ => some (r, st)
  | _ => none

/-- The step from `s` to `t`, as seen from outside. -/
def Sys.action (s t : Sys (realDevice β)) : Label (realDevice β) → Action β
  | .queueRq (some write) start env => .submit s.nextReq ⟨write, start, env⟩
  | .tick (.cpu mem) => .cpu mem
  | _ => .ended ((t.log.drop s.log.length).filterMap Event.ending)

/-- Neither a submission nor a write of the CPU. -/
def Internal : Label (realDevice β) → Prop
  | .queueRq (some _) _ _ => False
  | .tick (.cpu _) => False
  | _ => True

/-- The requests that end between `s` and `t`. -/
def Sys.Logs (s t : Sys (realDevice β)) (rs : List (Nat × BlkStatus)) : Prop :=
  ∃ evs, t.log = s.log ++ evs ∧ evs.filterMap Event.ending = rs

section
variable {s t u : Sys (realDevice β)} {rs rs' : List (Nat × BlkStatus)} {l : Label (realDevice β)}

theorem Sys.Logs.of_eq (h : t.log = s.log) : s.Logs t [] := ⟨[], by rw [h, List.append_nil], rfl⟩

theorem Sys.Logs.trans (h : s.Logs t rs) (h' : t.Logs u rs') : s.Logs u (rs ++ rs') := by
  obtain ⟨evs, he, rfl⟩ := h
  obtain ⟨evs', he', rfl⟩ := h'
  exact ⟨evs ++ evs', by rw [he', he, List.append_assoc], List.filterMap_append⟩

theorem Sys.Logs.send (s : Sys (realDevice β)) (n : LstNode) : s.Logs (s.send n) [] := by
  refine ⟨s.sendEvents n, Sys.send_log s n, ?_⟩
  unfold Sys.sendEvents
  cases ((realDevice β).write s.dev n.word).2 <;> rfl

theorem Sys.Logs.sendOpt (s : Sys (realDevice β)) (o : Option LstNode) : s.Logs (s.sendOpt o) [] := by
  cases o with
  | none => exact .of_eq rfl
  | some n => exact .send s n

theorem Sys.Logs.link (s : Sys (realDevice β)) (nodes : List LstNode) : s.Logs (s.link nodes) [] := by
  unfold Sys.link
  dsimp only
  split
  · exact .sendOpt s nodes.head?
  · exact .of_eq rfl

theorem Sys.Logs.action (h : s.Logs t rs) (hl : Internal l) : s.action t l = .ended rs := by
  obtain ⟨evs, he, rfl⟩ := h
  have hdrop : t.log.drop s.log.length = evs := by rw [he, List.drop_left]
  unfold Sys.action
  split
  · exact hl.elim
  · exact hl.elim
  · rw [hdrop]

end

/-! ## The geometry -/

section
variable {s t : Sys (realDevice β)} {l : Label (realDevice β)}

theorem Sys.sendOpt_geometry (s : Sys (realDevice β)) (o : Option LstNode) :
    (s.sendOpt o).dev.sec.geometry = s.dev.sec.geometry := by
  cases o with
  | none => rfl
  | some n =>
    show (s.send n).dev.sec.geometry = _
    rw [Sys.send_dev]
    exact aabm_geometry s.dev.sec n.word

theorem Sys.link_geometry (s : Sys (realDevice β)) (nodes : List LstNode) :
    (s.link nodes).dev.sec.geometry = s.dev.sec.geometry := by
  unfold Sys.link
  dsimp only
  split
  · exact Sys.sendOpt_geometry s nodes.head?
  · rfl

theorem Dev.move_geometry {d : Dev β} {m : Move β} {r : Dev β × Option SectStatus}
    (h : d.move m = some r) : r.1.sec.geometry = d.sec.geometry := by
  cases m with
  | cpu mem =>
    cases h
    rfl
  | io x =>
    rw [(Dev.move_io h).2]
    exact aabf_geometry d.sec d.mem x

/-- No step changes the geometry. -/
theorem Sys.Step.geometry (hs : s.Step l t) :
    t.dev.sec.geometry = s.dev.sec.geometry ∧ t.sec.info = s.sec.info := by
  cases hs with
  | splice r nodes hsub => exact ⟨Sys.link_geometry _ _, by rw [Sys.link_sec]⟩
  | ejectReturn hc => exact ⟨Sys.link_geometry _ _, by simp [Sys.linkEject, Sys.consume, ejectConsume]⟩
  | ejectWait hc => exact ⟨Sys.link_geometry _ _, by simp [Sys.linkEject]⟩
  | complete node rest st hirq hq hrep =>
    exact ⟨Sys.sendOpt_geometry _ _,
      by simpa [Sys.completed] using (completeHead_frame s.sec node rest st).1⟩
  | goes a dev ht => exact ⟨Dev.move_geometry ht, rfl⟩
  | answers a dev node rest st ht hq hex => exact ⟨Dev.move_geometry ht, rfl⟩
  | _ => exact ⟨rfl, rfl⟩

end

/-! ## One step -/

section
variable {s t : Sys (realDevice β)} {f : Flat β} {l : Label (realDevice β)}

/-- A step in which nothing can be seen. -/
theorem Sys.Serving.silent (h : t.Serving f) (hlog : s.Logs t []) (hl : Internal l) :
    ∃ f', t.Serving f' ∧ f.Step (s.action t l) f' :=
  ⟨f, h, hlog.action hl ▸ .silent⟩

/-- A new request. -/
theorem Sys.Serving.submit (h : s.Serving f) (ho : s.outstanding = none) {q : Request}
    (hq : q.InTape s.sec.info) (ht : t = { s with
      outstanding := some s.nextReq, nextReq := s.nextReq + 1
      sec := { s.sec with req := some s.nextReq }
      submit := .started s.nextReq q.write q.start q.env }) :
    ∃ f', t.Serving f' ∧ f.Step (.submit s.nextReq q) f' := by
  subst ht
  cases h with
  | free hp hout hs hio he =>
    refine ⟨{ f with pending := some (s.nextReq, q) }, .submitting s.nextReq q ⟨rfl, rfl, rfl, hq⟩
      (.inl rfl) hio ((he.pending _).congr rfl rfl rfl rfl rfl rfl), .submit _ _ hp⟩
  | submitting r q' hown hs hio he => simp [hown.outstanding] at ho
  | queued r q' pre post hown hs hb hqs hne hpre hpost he => simp [hown.outstanding] at ho
  | served r q' i post hown hs hb ha => simp [hown.outstanding] at ho

/-- While a request is being submitted, only EJECT commands are queued. -/
theorem Sys.Serving.submits (h : s.Serving f) (hs : s.submit ≠ .idle) :
    ∃ r q, s.Owns f r q ∧ s.Submits r q ∧ IoctlNodes s.sec.cmdQueue ∧ s.Ejecting f := by
  cases h with
  | free hp hout hsub hio he => exact absurd hsub hs
  | submitting r q hown hsub hio he => exact ⟨r, q, hown, hsub, hio, he⟩
  | queued r q pre post hown hsub hb hqs hne hpre hpost he => exact absurd hsub hs
  | served r q i post hown hsub hb ha => exact absurd hsub hs

section
variable {r r' : Nat} {q : Request}

theorem Sys.Submits.started (h : s.Submits r q) {write : Bool} {start : Nat} {env : SgEnv}
    (hs : s.submit = .started r' write start env) : r' = r ∧ q = ⟨write, start, env⟩ := by
  rw [Sys.Submits, hs] at h
  rcases h with h | ⟨st, h, -⟩ | ⟨h, -⟩
  · cases h
    exact ⟨rfl, rfl⟩
  · cases h
  · cases h

theorem Sys.Submits.failed (h : s.Submits r q) {status : BlkStatus}
    (hs : s.submit = .failed r' status) : r' = r ∧ status ≠ .ok ∧ ¬ q.Allocated := by
  rw [Sys.Submits, hs] at h
  rcases h with h | ⟨st, h, hfail⟩ | ⟨h, -⟩
  · cases h
  · cases h
    exact ⟨rfl, hfail⟩
  · cases h

theorem Sys.Submits.built (h : s.Submits r q) {nodes : List LstNode}
    (hs : s.submit = .built r' nodes) :
    r' = r ∧ nodes = q.nodes s.sec.info.blocksInTape r ∧ q.Described s.sec.cpuDmaBuf := by
  rw [Sys.Submits, hs] at h
  rcases h with h | ⟨st, h, -⟩ | ⟨h, hb⟩
  · cases h
  · cases h
  · cases h
    exact ⟨rfl, rfl, hb⟩

end

/-- The commands are built. -/
theorem Sys.Serving.built (h : s.Serving f) (hr : s.Ready) {r start : Nat} {write : Bool}
    {env : SgEnv} {st : SgState} (hsub : s.submit = .started r write start env)
    (hp : planRequest s.sec.info write env start s.sec.cpuDmaBuf = .ok st) :
    Sys.Serving { s with
      sec := { s.sec with cpuDmaBuf := st.pgtBuf }
      submit := .built r (st.cmds.map fun c => ⟨c, .request r⟩) } f := by
  obtain ⟨r', q, hown, hs, hio, he⟩ := h.submits (by simp [hsub])
  obtain ⟨rfl, rfl⟩ := hs.started hsub
  obtain ⟨hcmds, htab⟩ := (planRequest_inTape hr.small.blk hown.inTape _).2 st hp
  refine .submitting r _ (hown.congr rfl rfl rfl) (.inr (.inr ⟨?_, ?_⟩)) hio
    (he.congr rfl rfl rfl rfl rfl rfl)
  · rw [hcmds, List.map_map]
    rfl
  · show Request.Described _ st.pgtBuf
    rw [htab]
    exact Request.described_tableOf _ _

/-- The submission fails, because of an allocation. -/
theorem Sys.Serving.notBuilt (h : s.Serving f) (hr : s.Ready) {r start : Nat} {write : Bool}
    {env : SgEnv} {e : BlkStatus × SgState} (hsub : s.submit = .started r write start env)
    (hp : planRequest s.sec.info write env start s.sec.cpuDmaBuf = .error e) :
    Sys.Serving { s with sec := { s.sec with cpuDmaBuf := e.2.pgtBuf }, submit := .failed r e.1 }
      f := by
  obtain ⟨r', q, hown, hs, hio, he⟩ := h.submits (by simp [hsub])
  obtain ⟨rfl, rfl⟩ := hs.started hsub
  refine .submitting r _ (hown.congr rfl rfl rfl)
    (.inr (.inl ⟨e.1, rfl, planRequest_error hp, fun hall => ?_⟩)) hio
    (he.congr rfl rfl rfl rfl rfl rfl)
  obtain ⟨st, hst⟩ := (planRequest_inTape hr.small.blk hown.inTape _).1 hall
  rw [hp] at hst
  cases hst

/-- The failed request is ended. -/
theorem Sys.Serving.fail (h : s.Serving f) {r : Nat} {status : BlkStatus}
    (hsub : s.submit = .failed r status) (ht : t = { s with
      sec := { s.sec with req := none }, submit := .idle, outstanding := none
      log := s.log ++ if s.sec.req = none then [] else [.ended r status s.sec.req] }) :
    ∃ f', t.Serving f' ∧ f.Step (s.action t .fail) f' := by
  obtain ⟨r', q, hown, hs, hio, he⟩ := h.submits (by simp [hsub])
  obtain ⟨rfl, hok, hall⟩ := hs.failed hsub
  have hlog : t.log = s.log ++ [.ended r status (some r)] := by simp [ht, hown.req]
  have hact : s.action t .fail = .ended [(r, status)] :=
    Sys.Logs.action ⟨_, hlog, rfl⟩ trivial
  rw [hact]
  refine ⟨{ f with pending := none }, ?_, .refuse r q status hown.pending hall hok⟩
  subst ht
  exact .free rfl rfl rfl hio ((he.pending none).congr rfl rfl rfl rfl rfl
    (by rw [hlog, lastReport_append]; rfl))

/-- The commands of the request are linked. -/
theorem Sys.Serving.spliced (h : s.Serving f) (hr : s.Ready)
    (hi : s.sec.cmdQueue = [] → s.dev.sec.aadg = .idle) {r : Nat} {nodes : List LstNode}
    (hsub : s.submit = .built r nodes) :
    Sys.Serving { { s with log := s.log ++ [Event.queued r nodes] }.link nodes with
      submit := .idle, built := nodes } f := by
  obtain ⟨r', q, hown, hs, hio, he⟩ := h.submits (by simp [hsub])
  have he' : Sys.Ejecting { s with log := s.log ++ [Event.queued r nodes] } f :=
    he.congr rfl rfl rfl rfl rfl (lastReport_append _ _)
  have hr' : Sys.Ready { s with log := s.log ++ [Event.queued r nodes] } :=
    ⟨hr.small, hr.mounted, hr.idle⟩
  have hown' : Sys.Owns { s with log := s.log ++ [Event.queued r nodes] } f r' q :=
    hown.congr rfl rfl rfl
  obtain ⟨rfl, rfl, hb⟩ := hs.built hsub
  exact Sys.Serving.splice hown' hio he' hb hr' hi rfl rfl

/-- An EJECT ioctl links its command. -/
theorem Sys.Serving.linkEject (h : s.Serving f) (hr : s.Ready)
    (hi : s.sec.cmdQueue = [] → s.dev.sec.aadg = .idle) : s.linkEject.Serving f := by
  have halike : s.Alike { s with
      nextCall := s.nextCall + 1, sec := { s.sec with ejectionCmds := s.sec.ejectionCmds + 1 } } :=
    ⟨rfl, rfl, rfl, rfl, rfl, rfl, rfl, rfl, rfl, rfl, rfl⟩
  exact (halike.serving h).link ⟨hr.small, hr.mounted, hr.idle⟩ hi _

/-- The end of an EJECT call. -/
theorem Sys.Serving.consume (h : s.Serving f) (c : Nat) : (s.consume c).Serving f := by
  have halike : s.Alike (s.consume c) :=
    ⟨rfl, rfl, rfl, rfl, rfl, rfl, rfl, rfl, rfl, rfl,
      by simp [Sys.consume, lastReport_append, Event.report]⟩
  exact halike.serving h

/-- **One step.** The section takes a step, and the flat disk takes it too. -/
theorem serving_step (h : s.Serving f) (hr : s.Ready) (hf : s.Flow) (hg : WithinTapes s l)
    (hkeep : ∀ mem, l = .tick (.cpu mem) → ∀ a ∈ f.lent, mem a = s.dev.mem a) (hs : s.Step l t) :
    ∃ f', t.Serving f' ∧ f.Step (s.action t l) f' := by
  have hi : s.sec.cmdQueue = [] → s.dev.sec.aadg = .idle := fun hq => hr.idle (hf.quiet hq).resting
  cases hs with
  | submit write start env ho hsub =>
    obtain ⟨w, hw, hin⟩ := hg
    cases hw
    exact h.submit ho hin rfl
  | unsupported start env ho hsub =>
    obtain ⟨w, hw, -⟩ := hg
    cases hw
  | built r write start env st hsub hp =>
    exact (h.built hr hsub hp).silent (.of_eq rfl) trivial
  | notBuilt r write start env e hsub hp =>
    exact (h.notBuilt hr hsub hp).silent (.of_eq rfl) trivial
  | splice r nodes hsub =>
    refine (h.spliced hr hi hsub).silent ?_ trivial
    have hq : s.Logs { s with log := s.log ++ [Event.queued r nodes] } [] := ⟨_, rfl, rfl⟩
    exact hq.trans (.link _ nodes)
  | fail r status hsub => exact h.fail hsub rfl
  | ejectOom =>
    have halike : s.Alike { s with
        nextCall := s.nextCall + 1, log := s.log ++ [.returned s.nextCall (-ENOMEM)] } :=
      ⟨rfl, rfl, rfl, rfl, rfl, rfl, rfl, rfl, rfl, rfl, lastReport_append _ _⟩
    exact (halike.serving h).silent ⟨_, rfl, rfl⟩ trivial
  | ejectReturn hc =>
    refine ((h.linkEject hr hi).consume _).silent ?_ trivial
    have hl : s.Logs s.linkEject [] := Sys.Logs.link _ _
    exact hl.trans ⟨_, rfl, rfl⟩
  | ejectWait hc =>
    have halike : s.linkEject.Alike
        { s.linkEject with waiters := s.linkEject.waiters ++ [s.nextCall] } :=
      ⟨rfl, rfl, rfl, rfl, rfl, rfl, rfl, rfl, rfl, rfl, rfl⟩
    exact (halike.serving (h.linkEject hr hi)).silent (Sys.Logs.link _ _) trivial
  | wake c hc hflag =>
    have halike : s.Alike { s with waiters := s.waiters.erase c } :=
      ⟨rfl, rfl, rfl, rfl, rfl, rfl, rfl, rfl, rfl, rfl, rfl⟩
    exact ((halike.serving h).consume c).silent ⟨_, rfl, rfl⟩ trivial
  | signal c hc hflag =>
    have halike : s.Alike { s with
        waiters := s.waiters.erase c, log := s.log ++ [.returned c (-ERESTARTSYS)] } :=
      ⟨rfl, rfl, rfl, rfl, rfl, rfl, rfl, rfl, rfl, rfl, lastReport_append _ _⟩
    exact (halike.serving h).silent ⟨_, rfl, rfl⟩ trivial
  | snapshot hirq =>
    have halike : s.Alike { s with irq := some ⟨s.done, s.error, none⟩ } :=
      ⟨rfl, rfl, rfl, rfl, rfl, rfl, rfl, rfl, rfl, rfl, rfl⟩
    exact (halike.serving h).silent (.of_eq rfl) trivial
  | readStatus done error hirq =>
    have halike : s.Alike { s with irq := some ⟨done, error, some ((realDevice β).status s.dev)⟩ } :=
      ⟨rfl, rfl, rfl, rfl, rfl, rfl, rfl, rfl, rfl, rfl, rfl⟩
    exact (halike.serving h).silent (.of_eq rfl) trivial
  | nothing sn hirq hd he =>
    have halike : s.Alike { s with irq := none } :=
      ⟨rfl, rfl, rfl, rfl, rfl, rfl, rfl, rfl, rfl, rfl, rfl⟩
    exact (halike.serving h).silent (.of_eq rfl) trivial
  | complete node rest st hirq hq hrep =>
    obtain ⟨-, f', hserve, hend⟩ := h.complete hr hq hrep
    have hsend : (s.completed node rest st).Logs (s.completed node rest st).sendHead [] :=
      .sendOpt _ _
    rcases hend with ⟨rfl, hlog⟩ | ⟨r, q, hp, hmv, hp', hlog⟩
    · exact hserve.silent ((Sys.Logs.of_eq hlog).trans hsend) trivial
    · have hl : s.Logs (s.completed node rest st) [(r, .ok)] := ⟨_, hlog, rfl⟩
      refine ⟨f', hserve, ?_⟩
      rw [(hl.trans hsend).action (l := .handle) trivial]
      exact .finish r q f' hp hmv hp'
  | goes a dev ht =>
    cases a with
    | cpu mem =>
      cases ht
      exact ⟨f.cpu mem, h.cpu (hkeep mem rfl), .cpu mem⟩
    | io x =>
      have hb : (realDevice β).busy s.dev = true := by
        by_contra hb
        unfold realDevice Dev.move at ht
        simp_all [realDevice]
      obtain ⟨node, rest, hq, -⟩ := hf.executing hb
      have hserve : Sys.Serving { s with dev := dev } f :=
        h.atHead hr hq rfl rfl rfl fun c P I Q hc hruns => hruns.goes hr.mounted hc hg ht
      exact hserve.silent (.of_eq rfl) trivial
  | answers a dev node rest st ht hq hex =>
    cases a with
    | cpu mem => cases ht
    | io x =>
      have hserve : ({ s with dev := dev }.answer (some node) st).Serving f :=
        h.atHead hr hq rfl rfl rfl fun c P I Q hc hruns => hruns.answer hr.mounted hc hg ht hex
      exact hserve.silent ⟨_, rfl, rfl⟩ trivial
  | otherLine level => exact hg.elim

end

end Zso.Tape

import Zso.Tape.InFlight

/-!
# The log, owner by owner

Every event of the log but one concerns a request or an EJECT call. `historyOf o`
is the part of the log that concerns `o`. `Sys.HeadEvents` ties the end of that
part to the state: it is what the device has done so far with the command at the
head of the queue.
-/

namespace Zso.Tape

variable {D : DevModel}

/-- The request or call an event is about. -/
def Event.about : Event → Option Owner
  | .queued r _ => some (.request r)
  | .sent n _ => some n.owner
  | .answered n _ => some n.owner
  | .ended r _ _ => some (.request r)
  | .returned c _ => some (.ioctl c)
  | .noFirstEntry => none

def historyOf (o : Owner) (log : List Event) : List Event :=
  log.filter fun e => e.about = some o

/-- A command is sent and answered. -/
def exchange (p : LstNode × SectStatus) : List Event := [.sent p.1 true, .answered p.1 p.2]

theorem historyOf_append (o : Owner) (l l' : List Event) :
    historyOf o (l ++ l') = historyOf o l ++ historyOf o l' := List.filter_append ..

theorem historyOf_all {o : Owner} {l : List Event} (h : ∀ e ∈ l, e.about = some o) :
    historyOf o l = l := List.filter_eq_self.mpr (by simpa using h)

theorem historyOf_none {o : Owner} {l : List Event} (h : ∀ e ∈ l, e.about ≠ some o) :
    historyOf o l = [] := List.filter_eq_nil_iff.mpr (by simpa using h)

theorem mem_historyOf {o : Owner} {l : List Event} {e : Event} (h : e.about = some o) :
    e ∈ historyOf o l ↔ e ∈ l := by
  simp [historyOf, h]

theorem historyOf_concat {o : Owner} {e : Event} (h : e.about ≠ some o) (l : List Event) :
    historyOf o (l ++ [e]) = historyOf o l := by
  rw [historyOf_append, historyOf_none (l := [e]) (by simpa using h), List.append_nil]

theorem historyOf_concat_self {o : Owner} {e : Event} (h : e.about = some o) (l : List Event) :
    historyOf o (l ++ [e]) = historyOf o l ++ [e] := by
  rw [historyOf_append, historyOf_all (l := [e]) (by simpa using h)]

/-! ## The head of the queue -/

/-- What has happened to the head of the queue `q`, if it belongs to `o`. -/
def Sys.HeadEvents (s : Sys D) (o : Owner) (q : List LstNode) (evs : List Event) : Prop :=
  match q with
  | [] => evs = []
  | n :: _ => if n.owner = o then s.Facing n evs else evs = []

section
variable {s s' : Sys D} {o : Owner} {n : LstNode} {q : List LstNode} {evs : List Event}

theorem Sys.headEvents_self (ho : n.owner = o) : s.HeadEvents o (n :: q) evs ↔ s.Facing n evs := by
  simp [Sys.HeadEvents, ho]

theorem Sys.headEvents_other (ho : n.owner ≠ o) : s.HeadEvents o (n :: q) evs ↔ evs = [] := by
  simp [Sys.HeadEvents, ho]

theorem Sys.HeadEvents.mono (h : s.HeadEvents o q evs)
    (hf : ∀ n, s.Facing n evs → s'.Facing n evs) : s'.HeadEvents o q evs := by
  cases q with
  | nil => exact h
  | cons n q =>
    by_cases ho : n.owner = o
    · exact (Sys.headEvents_self ho).mpr (hf n ((Sys.headEvents_self ho).mp h))
    · exact (Sys.headEvents_other ho).mpr ((Sys.headEvents_other ho).mp h)

/-- Nothing has happened to `o` if it has no command in the queue. -/
theorem Sys.HeadEvents.eq_nil (h : s.HeadEvents o q evs) (ho : ∀ n ∈ q, n.owner ≠ o) :
    evs = [] := by
  cases q with
  | nil => exact h
  | cons n q => exact (Sys.headEvents_other (ho n List.mem_cons_self)).mp h

/-- A result that is reported is the whole story of the command. -/
theorem Sys.Facing.reported {st : SectStatus} (h : s.Facing n evs) (hrep : s.Reported n st) :
    evs = exchange (n, st) := by
  rcases h with ⟨hex, -⟩ | ⟨st', hrep', rfl⟩ | ⟨hstuck, -⟩
  · have hcur := hrep.cur
    rw [hex.cur] at hcur
    cases hcur
  · rw [← hrep.status, hrep'.status]
    rfl
  · have hd := hrep.done
    have he := hrep.error
    rw [hstuck.done] at hd
    rw [hstuck.error] at he
    rw [← he] at hd
    cases hd

theorem Sys.Facing.executing (h : s.Facing n evs) (hexec : s.Executing n) :
    evs = [.sent n true] := by
  rcases h with ⟨-, hev⟩ | ⟨st', hrep', -⟩ | ⟨hstuck, -⟩
  · exact hev
  · have hcur := hrep'.cur
    rw [hexec.cur] at hcur
    cases hcur
  · have hbusy := D.exec_busy hexec.exec
    rw [hstuck.resting] at hbusy
    cases hbusy

/-- The device answers the head. -/
theorem Sys.HeadEvents.answer (h : s.HeadEvents o (n :: q) evs) (hexec : s.Executing n) {a : D.α}
    {dev : D.σ} {st : SectStatus} (ht : D.tick s.dev a = some (dev, some st)) :
    ({ s with dev := dev }.answer (some n) st).HeadEvents o (n :: q)
      (evs ++ historyOf o [.answered n st]) := by
  by_cases ho : n.owner = o
  · rw [(Sys.headEvents_self ho).mp h |>.executing hexec, Sys.headEvents_self ho,
      historyOf_all (by simpa [Event.about] using ho)]
    exact .inr (.inl ⟨st, hexec.answer ht, rfl⟩)
  · rw [Sys.headEvents_other ho, (Sys.headEvents_other ho).mp h,
      historyOf_none (by simpa [Event.about] using ho)]
    rfl

/-! ## Sending and linking -/

theorem Sys.sendEvents_about (s : Sys D) (n : LstNode) :
    ∀ e ∈ s.sendEvents n, e.about = some n.owner := by
  intro e he
  simp only [Sys.sendEvents, List.mem_cons, Option.mem_toList, Option.map_eq_some_iff] at he
  rcases he with rfl | ⟨st, -, rfl⟩ <;> rfl

/-- A device at rest is sent the head of `q`. -/
theorem Sys.Quiet.sendOpt_events (h : s.Quiet) (o : Owner) (q : List LstNode) :
    ∃ evs, (s.sendOpt q.head?).HeadEvents o q evs ∧
      historyOf o (s.sendOpt q.head?).log = historyOf o s.log ++ evs := by
  cases q with
  | nil => exact ⟨[], rfl, (List.append_nil _).symm⟩
  | cons n q =>
    have hlog : (s.sendOpt (n :: q).head?).log = s.log ++ s.sendEvents n := s.send_log n
    rw [hlog, historyOf_append]
    refine ⟨_, ?_, rfl⟩
    by_cases ho : n.owner = o
    · rw [Sys.headEvents_self ho, historyOf_all fun e he => by rw [s.sendEvents_about n e he, ho]]
      exact h.facing n
    · rw [Sys.headEvents_other ho]
      exact historyOf_none fun e he => by simpa [s.sendEvents_about n e he] using ho

/-- Linking behind a queue that is not empty sends nothing. -/
theorem Sys.link_of_ne_nil (hq : s.sec.cmdQueue = n :: q) (nodes : List LstNode) :
    s.link nodes = { s with sec := { s.sec with cmdQueue := s.sec.cmdQueue ++ nodes } } := by
  simp [Sys.link, hq]

/-- Linking to an empty queue sends the first command. -/
theorem Sys.link_of_nil (hq : s.sec.cmdQueue = []) (nodes : List LstNode) :
    s.link nodes = { s.sendOpt nodes.head? with sec := { s.sec with cmdQueue := nodes } } := by
  simp [Sys.link, hq]

/-- Linking commands of `o` that has none in the queue. -/
theorem Sys.link_events (hquiet : s.sec.cmdQueue = [] → s.Quiet)
    (ho : ∀ n ∈ s.sec.cmdQueue, n.owner ≠ o) (nodes : List LstNode) :
    ∃ evs, (s.link nodes).HeadEvents o (s.sec.cmdQueue ++ nodes) evs ∧
      historyOf o (s.link nodes).log = historyOf o s.log ++ evs := by
  cases hq : s.sec.cmdQueue with
  | nil =>
    obtain ⟨evs, h1, h2⟩ := (hquiet hq).sendOpt_events o nodes
    rw [Sys.link_of_nil hq]
    exact ⟨evs, h1.mono fun m hm => hm.congr rfl rfl rfl rfl rfl, h2⟩
  | cons n q =>
    have hn := ho n (by rw [hq]; exact List.mem_cons_self)
    rw [Sys.link_of_ne_nil hq]
    exact ⟨[], (Sys.headEvents_other hn).mpr rfl, (List.append_nil _).symm⟩

/-- Linking commands of others. -/
theorem Sys.link_history (s : Sys D) {nodes : List LstNode} (ho : ∀ n ∈ nodes, n.owner ≠ o) :
    historyOf o (s.link nodes).log = historyOf o s.log := by
  unfold Sys.link
  split
  · cases nodes with
    | nil => rfl
    | cons n nodes =>
      show historyOf o (s.send n).log = historyOf o s.log
      have hn := ho n List.mem_cons_self
      rw [Sys.send_log, historyOf_append, historyOf_none (l := s.sendEvents _), List.append_nil]
      exact fun e he => by simpa [s.sendEvents_about n e he] using hn
  · rfl

/-- Linking commands of others behind a queue with commands of `o`. -/
theorem Sys.HeadEvents.link (h : s.HeadEvents o s.sec.cmdQueue evs) {nodes : List LstNode}
    (ho : ∀ n ∈ nodes, n.owner ≠ o) :
    (s.link nodes).HeadEvents o (s.link nodes).sec.cmdQueue evs := by
  rw [Sys.link_sec]
  cases hq : s.sec.cmdQueue with
  | nil =>
    rw [hq] at h
    subst h
    cases nodes with
    | nil => rfl
    | cons n nodes => exact (Sys.headEvents_other (ho n List.mem_cons_self)).mpr rfl
  | cons n q =>
    rw [hq] at h
    rw [Sys.link_of_ne_nil hq, List.cons_append]
    exact Sys.HeadEvents.mono (q := n :: (q ++ nodes)) h fun m hm => hm.congr rfl rfl rfl rfl rfl

end

end Zso.Tape

import Zso.Tape.System

/-!
# The command in flight

At every moment the device is concerned with the head of the queue, and with
nothing else: it executes the head, or its IRQ bit reports the head's result.
A device that has failed and takes no more commands is the only other case.

`Sys.Flow` is the invariant, `flow_step` its preservation, and
`Flow.handle_cases` says what a run of the handler can do in a state that has it.
-/

namespace Zso.Tape
open Transition

variable {D : DevModel}

theorem DevModel.idle_not_busy (D : DevModel) {s : D.σ} (h : D.idle s = true) :
    D.busy s = false := by
  cases hb : D.busy s with
  | false => rfl
  | true =>
    rw [D.busy_idle hb] at h
    cases h

/-! ## What the log says about the device -/

/-- The result the device reported last, forgotten when the next command is sent. -/
def Event.report (acc : Option (LstNode × SectStatus)) : Event → Option (LstNode × SectStatus)
  | .sent _ _ => none
  | .answered n st => some (n, st)
  | _ => acc

def lastReport (log : List Event) : Option (LstNode × SectStatus) := log.foldl Event.report none

theorem lastReport_append (l l' : List Event) :
    lastReport (l ++ l') = l'.foldl Event.report (lastReport l) := List.foldl_append

/-! ## The device and the head of the queue -/

/-- The device is executing `n`. -/
structure Sys.Executing (s : Sys D) (n : LstNode) : Prop where
  exec : D.Exec s.dev n.word
  cur : s.cur = some n
  done : s.done = false
  error : s.error = false

/-- An IRQ bit reports that `n` completed with `st`. -/
structure Sys.Reported (s : Sys D) (n : LstNode) (st : SectStatus) : Prop where
  resting : D.busy s.dev = false
  cur : s.cur = none
  status : D.status s.dev = st
  done : s.done = !st.isErr
  error : s.error = st.isErr
  final : st.isErr = true ∨ st = .done
  tape : st = .done →
    (fieldCmd n.word = CMD_TAKE_TAPE → D.tapeNo s.dev = fieldArg n.word) ∧
    (fieldCmd n.word = CMD_EJECT_TAPE → D.tapeNo s.dev = NO_TAPE)
  report : lastReport s.log = some (n, st)

/-- The device is not executing and reports nothing. -/
structure Sys.Quiet (s : Sys D) : Prop where
  resting : D.busy s.dev = false
  cur : s.cur = none
  done : s.done = false
  error : s.error = false

/-- The device fails to take the head. -/
structure Sys.Stuck (s : Sys D) : Prop extends s.Quiet where
  idle : D.idle s.dev = false

/-- What the device does while `head` is at the head of the queue. -/
def Sys.Tracks (s : Sys D) : Option LstNode → Prop
  | none => s.Quiet
  | some n => s.Executing n ∨ (∃ st, s.Reported n st) ∨ s.Stuck

/-- The device is concerned with `n`, and `evs` is what has happened to `n` since it
was sent. -/
def Sys.Facing (s : Sys D) (n : LstNode) (evs : List Event) : Prop :=
  (s.Executing n ∧ evs = [.sent n true]) ∨
  (∃ st, s.Reported n st ∧ evs = [.sent n true, .answered n st]) ∨
  (s.Stuck ∧ evs = [.sent n false])

theorem Sys.tracks_iff {s : Sys D} {n : LstNode} :
    s.Tracks (some n) ↔ ∃ evs, s.Facing n evs := by
  constructor
  · rintro (h | ⟨st, h⟩ | h)
    · exact ⟨_, .inl ⟨h, rfl⟩⟩
    · exact ⟨_, .inr (.inl ⟨st, h, rfl⟩)⟩
    · exact ⟨_, .inr (.inr ⟨h, rfl⟩)⟩
  · rintro ⟨evs, ⟨h, -⟩ | ⟨st, h, -⟩ | ⟨h, -⟩⟩
    · exact .inl h
    · exact .inr (.inl ⟨st, h⟩)
    · exact .inr (.inr h)

/-- A handler that has seen a bit still finds it, with the status it belongs to. -/
def Sys.SnapOk (s : Sys D) : Prop :=
  ∀ sn, s.irq = some sn → (sn.done = true → s.done = true) ∧ (sn.error = true → s.error = true) ∧
    ∀ st, sn.status = some st → sn.done = true ∨ sn.error = true → st = D.status s.dev

/-- Nodes with a word the switch of `__handle_section_done` knows. -/
def KnownWords (q : List LstNode) : Prop := ∀ n ∈ q, fieldCmd n.word ≤ CMD_WRITE

structure Sys.Flow (s : Sys D) : Prop where
  words : KnownWords s.sec.cmdQueue
  pending : ∀ r nodes, s.submit = .built r nodes → nodes ≠ [] ∧ KnownWords nodes
  tracks : s.Tracks s.sec.cmdQueue.head?
  snap : s.SnapOk

/-- The head of the queue is sent. -/
def Sys.sendHead (s : Sys D) : Sys D := s.sendOpt s.sec.cmdQueue.head?

/-! ## Frames -/

section
variable (s : Sys D) (n : LstNode)

/-- `send` concerns the device's side of the state only. -/
theorem Sys.send_frame : s.send n =
    { s with
      dev := (s.send n).dev, done := (s.send n).done, error := (s.send n).error
      line := (s.send n).line, cur := (s.send n).cur, log := (s.send n).log } := by
  unfold Sys.send
  dsimp only
  split
  · rfl
  · split <;> rfl

@[simp] theorem Sys.send_sec : (s.send n).sec = s.sec := by rw [Sys.send_frame]
@[simp] theorem Sys.send_submit : (s.send n).submit = s.submit := by rw [Sys.send_frame]
@[simp] theorem Sys.send_outstanding : (s.send n).outstanding = s.outstanding := by
  rw [Sys.send_frame]
@[simp] theorem Sys.send_nextReq : (s.send n).nextReq = s.nextReq := by rw [Sys.send_frame]
@[simp] theorem Sys.send_built : (s.send n).built = s.built := by rw [Sys.send_frame]
@[simp] theorem Sys.send_waiters : (s.send n).waiters = s.waiters := by rw [Sys.send_frame]
@[simp] theorem Sys.send_nextCall : (s.send n).nextCall = s.nextCall := by rw [Sys.send_frame]
@[simp] theorem Sys.send_irq : (s.send n).irq = s.irq := by rw [Sys.send_frame]

/-- What the log gains: the write, and the answer if there is one at once. -/
def Sys.sendEvents : List Event :=
  .sent n (D.idle s.dev) ::
    ((D.write s.dev n.word).2.map fun st => Event.answered n st).toList

theorem Sys.send_log : (s.send n).log = s.log ++ s.sendEvents n := by
  unfold Sys.send Sys.sendEvents Sys.answer
  dsimp only
  cases (D.write s.dev n.word).2 with
  | none => cases D.idle s.dev <;> simp
  | some st => simp

end

section
variable (s : Sys D) (o : Option LstNode)

theorem Sys.sendOpt_frame : s.sendOpt o =
    { s with
      dev := (s.sendOpt o).dev, done := (s.sendOpt o).done, error := (s.sendOpt o).error
      line := (s.sendOpt o).line, cur := (s.sendOpt o).cur, log := (s.sendOpt o).log } := by
  cases o with
  | none => rfl
  | some n => exact s.send_frame n

@[simp] theorem Sys.sendOpt_sec : (s.sendOpt o).sec = s.sec := by rw [Sys.sendOpt_frame]
@[simp] theorem Sys.sendOpt_submit : (s.sendOpt o).submit = s.submit := by rw [Sys.sendOpt_frame]
@[simp] theorem Sys.sendOpt_outstanding : (s.sendOpt o).outstanding = s.outstanding := by
  rw [Sys.sendOpt_frame]
@[simp] theorem Sys.sendOpt_nextReq : (s.sendOpt o).nextReq = s.nextReq := by
  rw [Sys.sendOpt_frame]
@[simp] theorem Sys.sendOpt_built : (s.sendOpt o).built = s.built := by rw [Sys.sendOpt_frame]
@[simp] theorem Sys.sendOpt_waiters : (s.sendOpt o).waiters = s.waiters := by
  rw [Sys.sendOpt_frame]
@[simp] theorem Sys.sendOpt_nextCall : (s.sendOpt o).nextCall = s.nextCall := by
  rw [Sys.sendOpt_frame]
@[simp] theorem Sys.sendOpt_irq : (s.sendOpt o).irq = s.irq := by rw [Sys.sendOpt_frame]

@[simp] theorem Sys.sendHead_sec : s.sendHead.sec = s.sec := s.sendOpt_sec _
@[simp] theorem Sys.sendHead_submit : s.sendHead.submit = s.submit := s.sendOpt_submit _
@[simp] theorem Sys.sendHead_outstanding : s.sendHead.outstanding = s.outstanding :=
  s.sendOpt_outstanding _
@[simp] theorem Sys.sendHead_nextReq : s.sendHead.nextReq = s.nextReq := s.sendOpt_nextReq _
@[simp] theorem Sys.sendHead_built : s.sendHead.built = s.built := s.sendOpt_built _
@[simp] theorem Sys.sendHead_waiters : s.sendHead.waiters = s.waiters := s.sendOpt_waiters _
@[simp] theorem Sys.sendHead_nextCall : s.sendHead.nextCall = s.nextCall := s.sendOpt_nextCall _
@[simp] theorem Sys.sendHead_irq : s.sendHead.irq = s.irq := s.sendOpt_irq _

end

/-- A device at rest faces the command it is sent. -/
theorem Sys.Quiet.facing {s : Sys D} (h : s.Quiet) (n : LstNode) :
    (s.send n).Facing n (s.sendEvents n) := by
  obtain ⟨hrest, hcur, hdone, herr⟩ := h
  cases hi : D.idle s.dev with
  | false =>
    have hw := D.write_busy n.word hi
    refine .inr (.inr ⟨⟨⟨?_, ?_, ?_, ?_⟩, ?_⟩, by simp [Sys.sendEvents, hw, hi]⟩) <;>
      simp [Sys.send, hw, hi, hrest, hcur, hdone, herr]
  | true =>
    cases hans : (D.write s.dev n.word).2 with
    | none =>
      obtain ⟨hexec, -⟩ := D.write_start hi hans
      refine .inl ⟨⟨?_, ?_, ?_, ?_⟩, by simp [Sys.sendEvents, hans, hi]⟩ <;>
        simp [Sys.send, hans, hi, hexec, hdone, herr]
    | some st =>
      obtain ⟨hidle, hst, hisErr, -⟩ := D.write_refuse hi hans
      have hnd : st ≠ .done := by
        rintro rfl
        exact absurd hisErr (by decide)
      refine .inr (.inl ⟨st, ⟨?_, ?_, ?_, ?_, ?_, .inl hisErr, fun h => absurd h hnd, ?_⟩,
        by simp [Sys.sendEvents, hans, hi]⟩)
      · simp only [Sys.send, hans, Sys.answer]
        exact D.idle_not_busy hidle
      all_goals simp [Sys.send, hans, Sys.answer, hst, hisErr, hdone, herr, lastReport_append,
        Event.report]

/-- A device at rest that is sent `n` tracks it. -/
theorem Sys.Quiet.send {s : Sys D} (h : s.Quiet) (n : LstNode) : (s.send n).Tracks (some n) :=
  Sys.tracks_iff.mpr ⟨_, h.facing n⟩

theorem Sys.Quiet.sendHead {s : Sys D} (h : s.Quiet) : s.sendHead.Tracks s.sec.cmdQueue.head? := by
  unfold Sys.sendHead
  cases s.sec.cmdQueue.head? with
  | none => exact h
  | some n => exact h.send n

section
variable {s t : Sys D}

theorem Sys.Quiet.congr (h : s.Quiet) (hdev : t.dev = s.dev) (hd : t.done = s.done)
    (he : t.error = s.error) (hc : t.cur = s.cur) : t.Quiet :=
  ⟨by rw [hdev]; exact h.resting, hc.trans h.cur, hd.trans h.done, he.trans h.error⟩

/-- What the device is concerned with is a matter of its side of the state only. -/
theorem Sys.Facing.congr {n : LstNode} {evs : List Event} (h : s.Facing n evs)
    (hdev : t.dev = s.dev) (hd : t.done = s.done) (he : t.error = s.error) (hc : t.cur = s.cur)
    (hl : lastReport t.log = lastReport s.log) : t.Facing n evs := by
  rcases h with ⟨⟨h1, h2, h3, h4⟩, hev⟩ | ⟨st, ⟨h1, h2, h3, h4, h5, h6, h7, h8⟩, hev⟩ |
    ⟨⟨hq, hi⟩, hev⟩
  · exact .inl ⟨⟨by rw [hdev]; exact h1, hc.trans h2, hd.trans h3, he.trans h4⟩, hev⟩
  · exact .inr (.inl ⟨st, ⟨by rw [hdev]; exact h1, hc.trans h2, by rw [hdev]; exact h3,
      hd.trans h4, he.trans h5, h6, by rw [hdev]; exact h7, hl.trans h8⟩, hev⟩)
  · exact .inr (.inr ⟨⟨hq.congr hdev hd he hc, by rw [hdev]; exact hi⟩, hev⟩)

theorem Sys.Tracks.congr {o : Option LstNode} (h : s.Tracks o) (hdev : t.dev = s.dev)
    (hd : t.done = s.done) (he : t.error = s.error) (hc : t.cur = s.cur)
    (hl : lastReport t.log = lastReport s.log) : t.Tracks o := by
  cases o with
  | none => exact Sys.Quiet.congr h hdev hd he hc
  | some n =>
    obtain ⟨evs, hev⟩ := Sys.tracks_iff.mp h
    exact Sys.tracks_iff.mpr ⟨evs, hev.congr hdev hd he hc hl⟩

end

/-! ## The device's own moves -/

section
variable {s : Sys D} {a : D.α} {dev : D.σ}

theorem Sys.Quiet.goes (h : s.Quiet) (ht : D.tick s.dev a = some (dev, none)) :
    Sys.Quiet { s with dev := dev } :=
  ⟨(D.tick_goes ht).2.1.trans h.resting, h.cur, h.done, h.error⟩

theorem Sys.Facing.goes {n : LstNode} {evs : List Event} (h : s.Facing n evs)
    (ht : D.tick s.dev a = some (dev, none)) : Sys.Facing { s with dev := dev } n evs := by
  obtain ⟨hex, hbusy, hidle, hst, htape⟩ := D.tick_goes ht
  rcases h with ⟨⟨h1, h2, h3, h4⟩, hev⟩ | ⟨st, ⟨h1, h2, h3, h4, h5, h6, h7, h8⟩, hev⟩ |
    ⟨⟨hq, hi⟩, hev⟩
  · exact .inl ⟨⟨(hex _).mp h1, h2, h3, h4⟩, hev⟩
  · refine .inr (.inl ⟨st, ⟨hbusy.trans h1, h2, hst.trans h3, h4, h5, h6,
      fun hd => ?_, h8⟩, hev⟩)
    rw [htape]
    exact h7 hd
  · exact .inr (.inr ⟨⟨hq.goes ht, hidle.trans hi⟩, hev⟩)

theorem Sys.Executing.answer {n : LstNode} {st : SectStatus} (h : s.Executing n)
    (ht : D.tick s.dev a = some (dev, some st)) :
    ({ s with dev := dev }.answer (some n) st).Reported n st := by
  obtain ⟨-, hrest, hst, hfin, -⟩ := D.tick_ends ht
  refine ⟨hrest, rfl, hst, ?_, ?_, hfin, fun hd => ?_, ?_⟩
  · simp [Sys.answer, h.done]
  · simp [Sys.answer, h.error]
  · subst hd
    exact D.tick_tape ht h.exec
  · simp [Sys.answer, lastReport_append, Event.report]

end

/-! ## The handler -/

/-- The state after the handler has dealt with the head's result, before the next
command is sent. -/
def Sys.completed (s : Sys D) (node : LstNode) (rest : List LstNode) (st : SectStatus) : Sys D :=
  let o := completeHead s.sec node rest st
  { s with
    sec := o.1
    done := false
    error := false
    line := false
    irq := none
    outstanding := if o.2.any Event.endsRequest then none else s.outstanding
    log := s.log ++ o.2 }

/-- A bit that is set reports the result of the head. -/
theorem Sys.Tracks.reported {s : Sys D} {o : Option LstNode} (h : s.Tracks o)
    (hb : s.done = true ∨ s.error = true) : ∃ n st, o = some n ∧ s.Reported n st := by
  have hno : s.done = false → s.error = false → False := by
    intro hd he
    rcases hb with hb | hb
    · rw [hd] at hb
      cases hb
    · rw [he] at hb
      cases hb
  cases o with
  | none => exact (hno h.done h.error).elim
  | some n =>
    rcases h with h | ⟨st, h⟩ | h
    · exact (hno h.done h.error).elim
    · exact ⟨n, st, rfl, h⟩
    · exact (hno h.done h.error).elim

/-- The handler finds no bit of the section in its snapshot, or it deals with the
result of the command at the head. -/
theorem Sys.Flow.handle_cases {s s' : Sys D} (h : s.Flow) (hs : s.handle = some s') :
    (∃ sn, s.irq = some sn ∧ sn.done = false ∧ sn.error = false ∧ s' = { s with irq := none }) ∨
    ∃ node rest st, s.irq = some ⟨!st.isErr, st.isErr, some st⟩ ∧ s.sec.cmdQueue = node :: rest ∧
      s.Reported node st ∧ s' = (s.completed node rest st).sendHead := by
  unfold Sys.handle at hs
  split at hs
  · next done error st hirq =>
    obtain ⟨hsd, hse, hst⟩ := h.snap _ hirq
    by_cases hbits : (done || error) = true
    · right
      rw [if_pos hbits] at hs
      have hor : done = true ∨ error = true := by simpa using hbits
      obtain ⟨node, st', ho, hrep⟩ := h.tracks.reported (hor.imp hsd hse)
      obtain ⟨rest, hq⟩ : ∃ rest, s.sec.cmdQueue = node :: rest := by
        cases hc : s.sec.cmdQueue with
        | nil =>
          rw [hc] at ho
          cases ho
        | cons n rest =>
          rw [hc] at ho
          cases ho
          exact ⟨rest, rfl⟩
      have hst' : st = st' := (hst st rfl hor).trans hrep.status
      subst hst'
      refine ⟨node, rest, st, ?_⟩
      cases hs
      cases herr : st.isErr with
      | true =>
        have hd := hrep.done
        rw [herr] at hd
        have hdf : done = false := by
          cases done with
          | false => rfl
          | true => exact absurd (hsd rfl) (by rw [hd]; decide)
        have het : error = true := by simpa [hdf] using hor
        refine ⟨by rw [hirq, hdf, het]; rfl, hq, hrep, ?_⟩
        rw [het, handle_error hq herr]
        simp only [Sys.completed, Sys.sendHead, Sys.clear, hd, hrep.error, herr, Bool.not_true,
          Bool.and_false]
      | false =>
        have he := hrep.error
        rw [herr] at he
        have hef : error = false := by
          cases error with
          | false => rfl
          | true => exact absurd (hse rfl) (by rw [he]; decide)
        have hdt : done = true := by simpa [hef] using hor
        have hdone : st = .done := hrep.final.resolve_left (by rw [herr]; decide)
        subst hdone
        have hword := h.words node (by rw [hq]; exact List.mem_cons_self)
        obtain ⟨htake, heject⟩ := hrep.tape rfl
        refine ⟨by rw [hirq, hdt, hef]; rfl, hq, hrep, ?_⟩
        rw [hef, hdt, handle_done hq hword htake heject]
        simp only [Sys.completed, Sys.sendHead, Sys.clear, he, hrep.done, herr, Bool.not_false,
          Bool.not_true, Bool.and_false, completeHead, if_true]
    · left
      rw [if_neg hbits] at hs
      have hor : done = false ∧ error = false := by simpa using hbits
      exact ⟨_, hirq, hor.1, hor.2, (Option.some.inj hs).symm⟩
  · cases hs

/-- A device that executes something executes the head. -/
theorem Sys.Flow.executing {s : Sys D} (h : s.Flow) (hb : D.busy s.dev = true) :
    ∃ node rest, s.sec.cmdQueue = node :: rest ∧ s.Executing node := by
  have hrest : D.busy s.dev ≠ false := by simp [hb]
  have ht := h.tracks
  cases hq : s.sec.cmdQueue with
  | nil =>
    rw [hq] at ht
    exact absurd (Sys.Quiet.resting ht) hrest
  | cons node rest =>
    rw [hq] at ht
    rcases ht with ht | ⟨st, ht⟩ | ht
    · exact ⟨node, rest, rfl, ht⟩
    · exact absurd ht.resting hrest
    · exact absurd ht.resting hrest

/-! ## What a step can do -/

/-- An EJECT ioctl links its command. -/
def Sys.linkEject (s : Sys D) : Sys D :=
  { s with
    nextCall := s.nextCall + 1
    sec := { s.sec with ejectionCmds := s.sec.ejectionCmds + 1 } }.link [ioctlNode s.nextCall]

/-- The steps of a state with `Sys.Flow`, one constructor for each thing that can
happen. -/
inductive Sys.Step (s : Sys D) : Label D → Sys D → Prop
  | submit (write : Bool) (start : Nat) (env : SgEnv) :
      s.outstanding = none → s.submit = .idle →
      s.Step (.queueRq (some write) start env)
        { s with
          outstanding := some s.nextReq, nextReq := s.nextReq + 1
          sec := { s.sec with req := some s.nextReq }
          submit := .started s.nextReq write start env }
  | unsupported (start : Nat) (env : SgEnv) :
      s.outstanding = none → s.submit = .idle →
      s.Step (.queueRq none start env)
        { s with
          outstanding := some s.nextReq, nextReq := s.nextReq + 1
          submit := .failed s.nextReq .notsupp }
  | built (r : Nat) (write : Bool) (start : Nat) (env : SgEnv) (st : SgState) :
      s.submit = .started r write start env →
      planRequest s.sec.info write env start s.sec.cpuDmaBuf = .ok st →
      s.Step .build
        { s with
          sec := { s.sec with cpuDmaBuf := st.pgtBuf }
          submit := .built r (st.cmds.map fun c => ⟨c, .request r⟩) }
  | notBuilt (r : Nat) (write : Bool) (start : Nat) (env : SgEnv) (e : BlkStatus × SgState) :
      s.submit = .started r write start env →
      planRequest s.sec.info write env start s.sec.cpuDmaBuf = .error e →
      s.Step .build
        { s with sec := { s.sec with cpuDmaBuf := e.2.pgtBuf }, submit := .failed r e.1 }
  | splice (r : Nat) (nodes : List LstNode) :
      s.submit = .built r nodes →
      s.Step .splice
        { { s with log := s.log ++ [Event.queued r nodes] }.link nodes with
          submit := .idle, built := nodes }
  | fail (r : Nat) (status : BlkStatus) :
      s.submit = .failed r status →
      s.Step .fail
        { s with
          sec := { s.sec with req := none }, submit := .idle, outstanding := none
          log := s.log ++ if s.sec.req = none then [] else [.ended r status s.sec.req] }
  | ejectOom :
      s.Step (.eject true)
        { s with
          nextCall := s.nextCall + 1, log := s.log ++ [.returned s.nextCall (-ENOMEM)] }
  | ejectReturn :
      s.sec.ioctlCmdDone = true → s.Step (.eject false) (s.linkEject.consume s.nextCall)
  | ejectWait :
      s.sec.ioctlCmdDone = false →
      s.Step (.eject false) { s.linkEject with waiters := s.linkEject.waiters ++ [s.nextCall] }
  | wake (c : Nat) :
      c ∈ s.waiters → s.sec.ioctlCmdDone = true →
      s.Step (.wake c) ({ s with waiters := s.waiters.erase c }.consume c)
  | signal (c : Nat) :
      c ∈ s.waiters → s.sec.ioctlCmdDone = false →
      s.Step (.signal c)
        { s with
          waiters := s.waiters.erase c, log := s.log ++ [.returned c (-ERESTARTSYS)] }
  | snapshot :
      s.irq = none → s.Step .snapshot { s with irq := some ⟨s.done, s.error, none⟩ }
  | readStatus (done error : Bool) :
      s.irq = some ⟨done, error, none⟩ →
      s.Step .readStatus { s with irq := some ⟨done, error, some (D.status s.dev)⟩ }
  | nothing (sn : Snapshot) :
      s.irq = some sn → sn.done = false → sn.error = false →
      s.Step .handle { s with irq := none }
  | complete (node : LstNode) (rest : List LstNode) (st : SectStatus) :
      s.irq = some ⟨!st.isErr, st.isErr, some st⟩ →
      s.sec.cmdQueue = node :: rest → s.Reported node st →
      s.Step .handle (s.completed node rest st).sendHead
  | goes (a : D.α) (dev : D.σ) :
      D.tick s.dev a = some (dev, none) → s.Step (.tick a) { s with dev := dev }
  | answers (a : D.α) (dev : D.σ) (node : LstNode) (rest : List LstNode) (st : SectStatus) :
      D.tick s.dev a = some (dev, some st) → s.sec.cmdQueue = node :: rest → s.Executing node →
      s.Step (.tick a) ({ s with dev := dev }.answer (some node) st)
  | otherLine (level : Bool) : s.Step (.otherLine level) { s with line := level }

@[simp] theorem Sys.link_sec (s : Sys D) (nodes : List LstNode) :
    (s.link nodes).sec = { s.sec with cmdQueue := s.sec.cmdQueue ++ nodes } := by
  unfold Sys.link
  split <;> simp

theorem Sys.next_step {s s' : Sys D} {l : Label D} (h : s.Flow) (hs : s.next l = some s') :
    s.Step l s' := by
  cases l with
  | queueRq op start env =>
    simp only [Sys.next, Sys.queueRq] at hs
    split at hs
    · next ho hi =>
      cases op with
      | none =>
        cases hs
        exact .unsupported start env ho hi
      | some write =>
        cases hs
        exact .submit write start env ho hi
    · cases hs
  | build =>
    simp only [Sys.next, Sys.build] at hs
    split at hs
    · next r write start env hsub =>
      cases hp : planRequest s.sec.info write env start s.sec.cpuDmaBuf with
      | error e =>
        rw [hp, onOutcome_error] at hs
        cases hs
        exact .notBuilt r write start env e hsub hp
      | ok st =>
        rw [hp, onOutcome_ok] at hs
        cases hs
        exact .built r write start env st hsub hp
    · cases hs
  | splice =>
    simp only [Sys.next, Sys.splice] at hs
    split at hs
    · next r nodes hsub =>
      cases hs
      exact .splice r nodes hsub
    · cases hs
  | fail =>
    simp only [Sys.next, Sys.fail] at hs
    split at hs
    · next r status hsub =>
      cases hs
      exact .fail r status hsub
    · cases hs
  | eject oom =>
    cases oom with
    | true =>
      cases hs
      exact .ejectOom
    | false =>
      have hflag : s.linkEject.sec.ioctlCmdDone = s.sec.ioctlCmdDone := by simp [Sys.linkEject]
      replace hs : some (if s.linkEject.sec.ioctlCmdDone then s.linkEject.consume s.nextCall
        else { s.linkEject with waiters := s.linkEject.waiters ++ [s.nextCall] }) = some s' := hs
      rw [hflag] at hs
      split at hs
      · next hf =>
        cases hs
        exact .ejectReturn hf
      · next hf =>
        cases hs
        exact .ejectWait (by simpa using hf)
  | wake c =>
    simp only [Sys.next, Sys.wake] at hs
    split at hs
    · next hc =>
      cases hs
      exact .wake c hc.1 hc.2
    · cases hs
  | signal c =>
    simp only [Sys.next, Sys.signal] at hs
    split at hs
    · next hc =>
      cases hs
      exact .signal c hc.1 hc.2
    · cases hs
  | snapshot =>
    simp only [Sys.next, Sys.snapshot] at hs
    split at hs
    · next hirq =>
      cases hs
      exact .snapshot hirq
    · cases hs
  | readStatus =>
    simp only [Sys.next, Sys.readStatus] at hs
    split at hs
    · next done error hirq =>
      cases hs
      exact .readStatus done error hirq
    · cases hs
  | handle =>
    rcases h.handle_cases hs with ⟨sn, hirq, hd, he, rfl⟩ | ⟨node, rest, st, hirq, hq, hrep, rfl⟩
    · exact .nothing sn hirq hd he
    · exact .complete node rest st hirq hq hrep
  | tick a =>
    simp only [Sys.next, Sys.tick, Option.map_eq_some_iff] at hs
    obtain ⟨⟨dev, ans⟩, ht, rfl⟩ := hs
    cases ans with
    | none => exact .goes a dev ht
    | some st =>
      obtain ⟨node, rest, hq, hexec⟩ := h.executing (D.tick_ends ht).1
      simp only [hexec.cur]
      exact .answers a dev node rest st ht hq hexec
  | otherLine level =>
    cases hs
    exact .otherLine level

/-! ## The invariant -/

/-- The list `Built` describes is not empty and has known words only. -/
theorem builtNodes_known {l : List SectionCmd} (h : BuiltNodes l) (r : Nat) :
    (l.map fun c => (⟨c, .request r⟩ : LstNode)) ≠ [] ∧
    KnownWords (l.map fun c => ⟨c, .request r⟩) := by
  obtain ⟨cs, hcs, rfl⟩ := h
  constructor
  · cases hcs <;> simp [changeCmds]
  · intro n hn
    simp only [List.map_map, List.mem_map] at hn
    obtain ⟨c, -, rfl⟩ := hn
    show fieldCmd c.encode ≤ CMD_WRITE
    rw [fieldCmd_encode]
    exact c.code_le

theorem KnownWords.append {q q' : List LstNode} (h : KnownWords q) (h' : KnownWords q') :
    KnownWords (q ++ q') := fun n hn => (List.mem_append.mp hn).elim (h n) (h' n)

/-- The queue after a completion is a tail of the one before. -/
theorem completeHead_suffix (sec : Section) (node : LstNode) (rest : List LstNode)
    (hq : sec.cmdQueue = node :: rest) (st : SectStatus) :
    (completeHead sec node rest st).1.cmdQueue <:+ node :: rest := by
  unfold completeHead
  split
  · exact List.suffix_cons node rest
  · split
    · exact List.suffix_cons node rest
    · split
      · exact hq ▸ List.suffix_refl _
      · exact (List.dropWhile_suffix _).trans (List.suffix_cons node rest)

/-- Linking commands starts the first one if nothing is in flight. -/
theorem Sys.Tracks.link {s : Sys D} (h : s.Tracks s.sec.cmdQueue.head?) {nodes : List LstNode} :
    (s.link nodes).Tracks (s.link nodes).sec.cmdQueue.head? := by
  rw [Sys.link_sec]
  unfold Sys.link
  cases hq : s.sec.cmdQueue with
  | nil =>
    rw [hq] at h
    cases nodes with
    | nil => exact h.congr rfl rfl rfl rfl rfl
    | cons n nodes => exact (Sys.Quiet.send h n).congr rfl rfl rfl rfl rfl
  | cons m q =>
    rw [hq] at h
    exact h.congr rfl rfl rfl rfl rfl

/-- Nothing is in flight and no bit is set while the queue is empty. -/
theorem Sys.Flow.quiet {s : Sys D} (h : s.Flow) (hq : s.sec.cmdQueue = []) : s.Quiet := by
  have ht := h.tracks
  rw [hq] at ht
  exact ht

/-- A handler's snapshot stays valid while commands are linked. -/
theorem Sys.Flow.snap_link {s : Sys D} (h : s.Flow) (nodes : List LstNode) :
    (s.link nodes).SnapOk := by
  intro sn hsn
  have hirq : s.irq = some sn := by
    rw [← hsn]
    unfold Sys.link
    split <;> simp
  obtain ⟨h1, h2, h3⟩ := h.snap sn hirq
  cases hq : s.sec.cmdQueue with
  | nil =>
    -- no bit was set when the snapshot was taken
    have hquiet := h.quiet hq
    have hd : sn.done = false := by
      cases hb : sn.done with
      | false => rfl
      | true => exact absurd (h1 hb) (by rw [hquiet.done]; decide)
    have he : sn.error = false := by
      cases hb : sn.error with
      | false => rfl
      | true => exact absurd (h2 hb) (by rw [hquiet.error]; decide)
    simp [hd, he]
  | cons m q =>
    have hl : s.link nodes = { s with sec := { s.sec with cmdQueue := s.sec.cmdQueue ++ nodes } } := by
      simp [Sys.link, hq]
    rw [hl]
    exact ⟨h1, h2, h3⟩

section
variable {s s' : Sys D} {l : Label D}

theorem ioctlNode_known (c : Nat) : KnownWords [ioctlNode c] := by
  intro n hn
  rw [List.mem_singleton] at hn
  subst hn
  show fieldCmd CMD_EJECT_TAPE ≤ CMD_WRITE
  decide

theorem Sys.Flow.linkEject (h : s.Flow) : s.linkEject.Flow := by
  have h' : Sys.Flow { s with
      nextCall := s.nextCall + 1
      sec := { s.sec with ejectionCmds := s.sec.ejectionCmds + 1 } } :=
    ⟨h.words, h.pending, h.tracks.congr rfl rfl rfl rfl rfl, h.snap⟩
  refine ⟨?_, ?_, h'.tracks.link, h'.snap_link _⟩
  · simp only [Sys.linkEject, Sys.link_sec]
    exact h.words.append (ioctlNode_known _)
  · intro r nodes hsub
    refine h.pending r nodes ?_
    rw [← hsub]
    unfold Sys.linkEject Sys.link
    split <;> simp

theorem Sys.Flow.consume (h : s.Flow) (c : Nat) : (s.consume c).Flow :=
  ⟨h.words, h.pending,
    h.tracks.congr rfl rfl rfl rfl (by simp [Sys.consume, lastReport_append, Event.report]), h.snap⟩

/-- The handler leaves the device at rest, so that the next command is tracked. -/
theorem Sys.Flow.complete (h : s.Flow) {node : LstNode} {rest : List LstNode} {st : SectStatus}
    (hq : s.sec.cmdQueue = node :: rest) (hrep : s.Reported node st) :
    (s.completed node rest st).sendHead.Flow := by
  have hquiet : (s.completed node rest st).Quiet := ⟨hrep.resting, hrep.cur, rfl, rfl⟩
  have hsec : (s.completed node rest st).sendHead.sec = (completeHead s.sec node rest st).1 := by
    simp [Sys.completed]
  refine ⟨?_, ?_, ?_, ?_⟩
  · rw [hsec]
    have hsuf := completeHead_suffix s.sec node rest hq st
    exact fun n hn => h.words n (by rw [hq]; exact hsuf.mem hn)
  · intro r nodes hsub
    exact h.pending r nodes (by simpa [Sys.completed] using hsub)
  · rw [hsec]
    exact hquiet.sendHead
  · intro sn hsn
    simp [Sys.completed] at hsn

theorem flow_step (h : s.Flow) (hs : s.Step l s') : s'.Flow := by
  cases hs with
  | submit write start env ho hi =>
    exact ⟨h.words, by rintro r nodes ⟨⟩, h.tracks.congr rfl rfl rfl rfl rfl, h.snap⟩
  | unsupported start env ho hi =>
    exact ⟨h.words, by rintro r nodes ⟨⟩, h.tracks.congr rfl rfl rfl rfl rfl, h.snap⟩
  | built r write start env st hsub hp =>
    refine ⟨h.words, fun r' nodes hb => ?_, h.tracks.congr rfl rfl rfl rfl rfl, h.snap⟩
    cases hb
    exact builtNodes_known (planRequest_built hp) r
  | notBuilt r write start env e hsub hp =>
    exact ⟨h.words, by rintro r nodes ⟨⟩, h.tracks.congr rfl rfl rfl rfl rfl, h.snap⟩
  | splice r nodes hsub =>
    obtain ⟨hne, hknown⟩ := h.pending r nodes hsub
    have h' : Sys.Flow { s with log := s.log ++ [.queued r nodes] } :=
      ⟨h.words, h.pending,
        h.tracks.congr rfl rfl rfl rfl (by simp [lastReport_append, Event.report]), h.snap⟩
    refine ⟨?_, by rintro r nodes ⟨⟩, ?_, h'.snap_link nodes⟩
    · simp only [Sys.link_sec]
      exact h.words.append hknown
    · exact h'.tracks.link.congr rfl rfl rfl rfl rfl
  | fail r status hsub =>
    refine ⟨h.words, by rintro r nodes ⟨⟩, h.tracks.congr rfl rfl rfl rfl ?_, h.snap⟩
    split <;> simp [lastReport_append, Event.report]
  | ejectOom =>
    exact ⟨h.words, h.pending,
      h.tracks.congr rfl rfl rfl rfl (by simp [lastReport_append, Event.report]), h.snap⟩
  | ejectReturn hf => exact h.linkEject.consume _
  | ejectWait hf =>
    have h' := h.linkEject
    exact ⟨h'.words, h'.pending, h'.tracks.congr rfl rfl rfl rfl rfl, h'.snap⟩
  | wake c hc hf =>
    have h' : Sys.Flow { s with waiters := s.waiters.erase c } :=
      ⟨h.words, h.pending, h.tracks.congr rfl rfl rfl rfl rfl, h.snap⟩
    exact h'.consume c
  | signal c hc hf =>
    exact ⟨h.words, h.pending,
      h.tracks.congr rfl rfl rfl rfl (by simp [lastReport_append, Event.report]), h.snap⟩
  | snapshot hirq =>
    refine ⟨h.words, h.pending, h.tracks.congr rfl rfl rfl rfl rfl, fun sn hsn => ?_⟩
    cases hsn
    exact ⟨id, id, by rintro st ⟨⟩⟩
  | readStatus done error hirq =>
    refine ⟨h.words, h.pending, h.tracks.congr rfl rfl rfl rfl rfl, fun sn hsn => ?_⟩
    cases hsn
    obtain ⟨h1, h2, -⟩ := h.snap _ hirq
    exact ⟨h1, h2, fun st hst _ => (Option.some.inj hst).symm⟩
  | nothing sn hirq hd he =>
    exact ⟨h.words, h.pending, h.tracks.congr rfl rfl rfl rfl rfl, by rintro sn ⟨⟩⟩
  | complete node rest st hirq hq hrep => exact h.complete hq hrep
  | goes a dev ht =>
    obtain ⟨-, -, -, hst, -⟩ := D.tick_goes ht
    refine ⟨h.words, h.pending, ?_, ?_⟩
    · have htr := h.tracks
      show Sys.Tracks { s with dev := dev } s.sec.cmdQueue.head?
      cases hq : s.sec.cmdQueue.head? with
      | none =>
        rw [hq] at htr
        exact Sys.Quiet.goes htr ht
      | some n =>
        rw [hq] at htr
        obtain ⟨evs, hev⟩ := Sys.tracks_iff.mp htr
        exact Sys.tracks_iff.mpr ⟨evs, hev.goes ht⟩
    · intro sn hsn
      obtain ⟨h1, h2, h3⟩ := h.snap sn hsn
      exact ⟨h1, h2, fun st hs hb => (h3 st hs hb).trans hst.symm⟩
  | answers a dev node rest st ht hq hexec =>
    refine ⟨h.words, h.pending, ?_, ?_⟩
    · show Sys.Tracks _ s.sec.cmdQueue.head?
      rw [hq]
      exact .inr (.inl ⟨st, hexec.answer ht⟩)
    · intro sn hsn
      obtain ⟨h1, h2, h3⟩ := h.snap sn hsn
      have hd : sn.done = false := by
        cases hb : sn.done with
        | false => rfl
        | true => exact absurd (h1 hb) (by rw [hexec.done]; decide)
      have he : sn.error = false := by
        cases hb : sn.error with
        | false => rfl
        | true => exact absurd (h2 hb) (by rw [hexec.error]; decide)
      simp [hd, he]
  | otherLine level =>
    exact ⟨h.words, h.pending, h.tracks.congr rfl rfl rfl rfl rfl, h.snap⟩

end

theorem Sys.Initial.quiet {s : Sys D} (h : s.Initial) : s.Quiet :=
  ⟨D.idle_not_busy h.dev, h.cur, h.done, h.error⟩

theorem Sys.Initial.flow {s : Sys D} (h : s.Initial) : s.Flow := by
  refine ⟨by rw [h.queue]; simp [KnownWords], fun r nodes hb => ?_, ?_, fun sn hsn => ?_⟩
  · rw [h.submit] at hb
    cases hb
  · rw [h.queue]
    exact h.quiet
  · rw [h.irq] at hsn
    cases hsn

theorem flow_reachOn {I : Sys D → Prop} (hI : ∀ s, I s → s.Flow) {G : Sys D → Label D → Prop}
    {s : Sys D} (h : (systemFrom D I).ReachOn G s) : s.Flow := by
  refine Lts.invariantOn hI (fun s l s' _ hf _ hs => ?_) h
  exact flow_step hf (Sys.next_step hf hs)

theorem flow_reach {s : Sys D} (h : (system D).Reach s) : s.Flow :=
  flow_reachOn (fun _ => Sys.Initial.flow) h

/-- An invariant that each step of a flowing system preserves. -/
theorem reach_induction {P : Sys D → Prop} {G : Sys D → Label D → Prop}
    (hinit : ∀ s, s.Initial → P s)
    (hstep : ∀ s l s', s.Flow → P s → G s l → s.Step l s' → P s')
    {s : Sys D} (h : (system D).ReachOn G s) : P s := by
  refine Lts.invariantOn hinit (fun s l s' hr hp hg hs => ?_) h
  have hf : s.Flow := flow_reachOn (fun _ => Sys.Initial.flow) hr
  exact hstep s l s' hf hp hg (Sys.next_step hf hs)

end Zso.Tape

import Zso.Tape.Log
import Zso.Tape.QueueShape
import Zso.Tape.RealDevice

/-!
# The loaded tape

The driver never asks the device which tape is loaded. It follows the commands it
has sent, and takes `sec->current_tape` from the words of those that are done.
ERR_NO_TAPE and the other errors leave it alone.

This is sound because the commands of a request come in an order that never needs
a tape which is not there (`TapeSafe`). So ERR_NO_TAPE answers EJECT commands only
(`ejectOnly_reach`), and whenever the queue is empty the driver and the device agree
(`current_tape_coherent`).
-/

namespace Zso.Tape
open Transition

variable {D : DevModel}

/-! ## Commands in the order of their tapes -/

/-- Whether a tape is loaded after the command `w`. -/
def loadedAfter (w : Nat) (loaded : Bool) : Bool :=
  match fieldCmd w with
  | CMD_TAKE_TAPE => true
  | CMD_EJECT_TAPE => false
  | _ => loaded

theorem loaded_tapeAfter {n : LstNode} {tape : Nat}
    (htake : fieldCmd n.word = CMD_TAKE_TAPE → fieldArg n.word ≠ NO_TAPE) :
    decide (tapeAfter n tape ≠ NO_TAPE) = loadedAfter n.word (decide (tape ≠ NO_TAPE)) := by
  unfold tapeAfter loadedAfter
  generalize fieldCmd n.word = cmd at htake ⊢
  rcases cmd with - | - | cmd
  · simpa using htake rfl
  · rfl
  · rfl

/-- Only TAKE_TAPE and EJECT_TAPE are sent with no tape loaded. -/
def TapeSafe : Bool → List LstNode → Prop
  | _, [] => True
  | loaded, n :: q =>
    (loaded = false → fieldCmd n.word = CMD_TAKE_TAPE ∨ fieldCmd n.word = CMD_EJECT_TAPE) ∧
    TapeSafe (loadedAfter n.word loaded) q

theorem TapeSafe.append {q q' : List LstNode} {b : Bool} (h : TapeSafe b q)
    (h' : ∀ b, TapeSafe b q') : TapeSafe b (q ++ q') := by
  induction q generalizing b with
  | nil => exact h' b
  | cons n q ih => exact ⟨h.1, ih h.2⟩

theorem tapeSafe_take {q : List LstNode} (h : TapeSafe true q) (b : Bool) {n : LstNode}
    (hn : fieldCmd n.word = CMD_TAKE_TAPE) : TapeSafe b (n :: q) :=
  ⟨fun _ => .inl hn, by simpa [loadedAfter, hn] using h⟩

theorem tapeSafe_eject {q : List LstNode} (h : TapeSafe false q) (b : Bool) {n : LstNode}
    (hn : fieldCmd n.word = CMD_EJECT_TAPE) : TapeSafe b (n :: q) :=
  ⟨fun _ => .inr hn, by simpa [loadedAfter, hn, CMD_EJECT_TAPE] using h⟩

theorem tapeSafe_loaded {q : List LstNode} (h : TapeSafe true q) {n : LstNode}
    (hn : fieldCmd n.word ≠ CMD_EJECT_TAPE) : TapeSafe true (n :: q) := by
  refine ⟨by simp, ?_⟩
  have hl : loadedAfter n.word true = true := by
    unfold loadedAfter
    split
    · rfl
    · next he => exact absurd he hn
    · rfl
  rwa [hl]

theorem IoctlNodes.tapeSafe {q : List LstNode} (h : IoctlNodes q) (b : Bool) : TapeSafe b q := by
  induction q generalizing b with
  | nil => trivial
  | cons n q ih =>
    obtain ⟨c, rfl⟩ := h n List.mem_cons_self
    refine tapeSafe_eject (ih (fun m hm => h m (List.mem_cons_of_mem _ hm)) _) b ?_
    show fieldCmd CMD_EJECT_TAPE = CMD_EJECT_TAPE
    decide

/-- A built list may be sent with any tape loaded or none. It leaves a tape loaded. -/
theorem Built.tapeSafe {cs : List Cmd} (h : Built cs) (r : Nat) {q : List LstNode}
    (hq : TapeSafe true q) (b : Bool) :
    TapeSafe b ((cs.map fun c => ⟨c.node, .request r⟩) ++ q) := by
  have hcode : ∀ c : Cmd, fieldCmd (⟨c.node, .request r⟩ : LstNode).word = c.code := fieldCmd_encode
  have hload : ∀ {tape : Nat} {q : List LstNode} {b : Bool}, TapeSafe true q →
      TapeSafe b (((changeCmds tape).map fun c => ⟨c.node, .request r⟩) ++ q) := fun hq =>
    tapeSafe_eject (tapeSafe_take (tapeSafe_loaded hq (by rw [hcode]; decide)) _ (hcode _)) _
      (hcode _)
  induction h generalizing q b with
  | setup tape pos =>
    refine hload (tapeSafe_loaded hq ?_)
    rw [hcode]
    exact (by decide : CMD_FAST_FWD ≠ CMD_EJECT_TAPE)
  | change tape hcs ih =>
    rw [List.map_append, List.append_assoc]
    exact ih (hload hq) b
  | rw write off n hcs ih =>
    rw [List.map_append, List.append_assoc]
    refine ih (tapeSafe_loaded hq ?_) b
    rw [hcode]
    cases write with
    | true => exact (by decide : CMD_WRITE ≠ CMD_EJECT_TAPE)
    | false => exact (by decide : CMD_READ ≠ CMD_EJECT_TAPE)

theorem BuiltFor.tapeSafe {r : Nat} {nodes : List LstNode} (h : BuiltFor r nodes) (b : Bool) :
    TapeSafe b nodes := by
  obtain ⟨cs, hcs, rfl⟩ := h
  simpa using hcs.tapeSafe r (q := []) trivial b

/-! ## Devices that keep their tape -/

/-- The tape changes only when TAKE_TAPE or EJECT_TAPE is done, and ERR_NO_TAPE refuses
a command because no tape is loaded. -/
structure DevModel.KeepsTape (D : DevModel) : Prop where
  refuse : ∀ {s w}, D.idle s = true → (D.write s w).2 = some .errNoTape →
    D.tapeNo s = NO_TAPE ∧ fieldCmd w ≠ CMD_TAKE_TAPE
  ends : ∀ {s a s' st} {n : LstNode}, D.tick s a = some (s', some st) → D.Exec s n.word →
    st ≠ .errNoTape ∧
    D.tapeNo s' = if st = .done then tapeAfter n (D.tapeNo s) else D.tapeNo s
  take : ∀ {s w}, D.Exec s w → fieldCmd w = CMD_TAKE_TAPE → fieldArg w ≠ NO_TAPE

theorem realDevice_keepsTape (β : Type) : (realDevice β).KeepsTape where
  refuse := by
    intro d w hi hans
    rcases aabm_cases (of_decide_eq_true hi) w with ⟨s', g, he, -, -, -⟩ | ⟨st, he, -, hno⟩
    · change answerStatus (aabm 2 d.sec w) = _ at hans
      rw [he] at hans
      cases hans
    · change answerStatus (aabm 2 d.sec w) = _ at hans
      rw [he] at hans
      exact hno (Option.some.inj hans)
  ends := by
    intro d m d' st n ht hex
    rcases Dev.move_cases ht with ⟨_, _, _, ho⟩ | ⟨x, _, _, ⟨_, _, _, _, ho⟩ | hend⟩
    · cases ho
    · cases ho
    · obtain ⟨s', g, st', hd, ho, -, hst, htape, hdone⟩ := hend
      cases ho
      refine ⟨?_, ?_⟩
      · rcases hst with rfl | rfl | rfl | rfl <;> decide
      · have htape' : (realDevice β).tapeNo d' = s'.aaaa := by
          show d'.sec.aaaa = _
          rw [hd]
          rfl
        rw [htape', htape]
        change d.sec.Executes n.word at hex
        unfold Aacc.Executes at hex
        unfold tapeAfter
        split at hex
        · next hc =>
          rw [if_pos hex.1, if_pos (hdone (.inl hex.1)), hc, hex.2.2.1]
          rfl
        · next hc =>
          rw [if_neg (by simp [hex.1]), if_pos hex.1, if_pos (hdone (.inr hex.1)), hc]
          rfl
        all_goals
          first
            | exact hex.elim
            | next hc =>
              rw [if_neg (by simp [hex.1]), if_neg (by simp [hex.1]), hc]
              exact (ite_self _).symm
  take := by
    intro d w hex hc
    change d.sec.Executes w at hex
    simp only [Aacc.Executes, hc] at hex
    exact hex.2.2.2

/-! ## Driver and device -/

/-- A tape is in the drive. -/
def Sys.loaded (s : Sys D) : Bool := decide (D.tapeNo s.dev ≠ NO_TAPE)

/-- The driver knows the loaded tape, and the commands `q` may be sent. -/
structure Sys.Agrees (s : Sys D) (q : List LstNode) : Prop where
  tape : D.tapeNo s.dev = s.sec.currentTape
  safe : TapeSafe s.loaded q

/-- The same for a state in which the command `n` has been completed with a status and
the driver has not dealt with it; `q` is behind `n`. -/
def Sys.WillAgree (s : Sys D) (n : LstNode) (q : List LstNode) (st : SectStatus) : Prop :=
  if st = .done then
    D.tapeNo s.dev = tapeAfter n s.sec.currentTape ∧ TapeSafe s.loaded q
  else if st = .errNoTape then s.Agrees q ∧ fieldCmd n.word = CMD_EJECT_TAPE
  else s.Agrees (n :: q)

def Sys.TapeOk (s : Sys D) : Prop :=
  match s.sec.cmdQueue with
  | [] => s.Agrees []
  | n :: q =>
    (s.Executing n ∨ s.Stuck) ∧ s.Agrees (n :: q) ∨ ∃ st, s.Reported n st ∧ s.WillAgree n q st

section
variable {s s' t : Sys D} {l : Label D} {n : LstNode} {q : List LstNode}

theorem Sys.Agrees.congr (h : s.Agrees q) (hdev : t.dev = s.dev)
    (htape : t.sec.currentTape = s.sec.currentTape) : t.Agrees q := by
  refine ⟨by rw [hdev, htape]; exact h.tape, ?_⟩
  have hl : t.loaded = s.loaded := by
    unfold Sys.loaded
    rw [hdev]
  rw [hl]
  exact h.safe

theorem Sys.WillAgree.congr {st : SectStatus} (h : s.WillAgree n q st) (hdev : t.dev = s.dev)
    (htape : t.sec.currentTape = s.sec.currentTape) : t.WillAgree n q st := by
  have hl : t.loaded = s.loaded := by
    unfold Sys.loaded
    rw [hdev]
  unfold Sys.WillAgree at h ⊢
  split
  · next hd =>
    rw [if_pos hd] at h
    rw [hdev, htape, hl]
    exact h
  · next hd =>
    rw [if_neg hd] at h
    split
    · next hn =>
      rw [if_pos hn] at h
      exact ⟨h.1.congr hdev htape, h.2⟩
    · next hn =>
      rw [if_neg hn] at h
      exact h.congr hdev htape

/-- Steps that concern neither the queue nor the device. -/
theorem Sys.TapeOk.congr (h : s.TapeOk) (hq : t.sec.cmdQueue = s.sec.cmdQueue)
    (htape : t.sec.currentTape = s.sec.currentTape) (hdev : t.dev = s.dev)
    (hd : t.done = s.done) (he : t.error = s.error) (hc : t.cur = s.cur)
    (hl : lastReport t.log = lastReport s.log) : t.TapeOk := by
  unfold Sys.TapeOk at h ⊢
  rw [hq]
  cases hcq : s.sec.cmdQueue with
  | nil =>
    rw [hcq] at h
    exact Sys.Agrees.congr h hdev htape
  | cons n q =>
    rw [hcq] at h
    rcases h with ⟨hex | hst, ha⟩ | ⟨st, hrep, ha⟩
    · refine .inl ⟨.inl ?_, ha.congr hdev htape⟩
      exact ⟨by rw [hdev]; exact hex.exec, hc.trans hex.cur, hd.trans hex.done, he.trans hex.error⟩
    · refine .inl ⟨.inr ⟨hst.toQuiet.congr hdev hd he hc, ?_⟩, ha.congr hdev htape⟩
      rw [hdev]
      exact hst.idle
    · refine .inr ⟨st, ?_, ha.congr hdev htape⟩
      exact ⟨by rw [hdev]; exact hrep.resting, hc.trans hrep.cur, by rw [hdev]; exact hrep.status,
        hd.trans hrep.done, he.trans hrep.error, hrep.final, by rw [hdev]; exact hrep.tape,
        hl.trans hrep.report⟩

/-- Being sent a command does not move the tape. -/
theorem DevModel.write_tapeNo (D : DevModel) (d : D.σ) (w : Nat) :
    D.tapeNo (D.write d w).1 = D.tapeNo d := by
  cases hi : D.idle d with
  | false => rw [D.write_busy w hi]
  | true =>
    cases ho : (D.write d w).2 with
    | none => exact (D.write_start hi ho).2
    | some st => exact (D.write_refuse hi ho).2.2.2

theorem Sys.Agrees.send (h : s.Agrees q) (n : LstNode) : (s.send n).Agrees q := by
  have htape : D.tapeNo (s.send n).dev = D.tapeNo s.dev := by
    rw [Sys.send_dev]
    exact D.write_tapeNo _ _
  refine ⟨by rw [htape, Sys.send_sec]; exact h.tape, ?_⟩
  unfold Sys.loaded
  rw [htape]
  exact h.safe

/-- With no tape loaded, the only command that may be sent and is refused for it is
EJECT_TAPE. -/
theorem Sys.Agrees.refused (h : s.Agrees (n :: q)) (htape : D.tapeNo s.dev = NO_TAPE)
    (hn : fieldCmd n.word ≠ CMD_TAKE_TAPE) :
    s.Agrees q ∧ fieldCmd n.word = CMD_EJECT_TAPE := by
  have hl : s.loaded = false := by simp [Sys.loaded, htape]
  obtain ⟨h1, h2⟩ := h.safe
  have he := (h1 hl).resolve_left hn
  refine ⟨⟨h.tape, ?_⟩, he⟩
  rw [hl] at h2 ⊢
  simpa [loadedAfter, he, CMD_EJECT_TAPE] using h2

/-- The head of the queue is sent. -/
theorem Sys.Agrees.sendHead (hD : D.KeepsTape) (h : s.Agrees s.sec.cmdQueue) (hq : s.Quiet) :
    s.sendHead.TapeOk := by
  unfold Sys.TapeOk Sys.sendHead
  rw [Sys.sendOpt_sec]
  cases hc : s.sec.cmdQueue with
  | nil =>
    rw [hc] at h
    exact h
  | cons n q =>
    rw [hc] at h
    show (_ ∨ _) ∧ (s.send n).Agrees (n :: q) ∨ _
    rcases hq.facing n with ⟨hex, -⟩ | ⟨st, hrep, hev⟩ | ⟨hst, -⟩
    · exact .inl ⟨.inl hex, h.send n⟩
    · refine .inr ⟨st, hrep, ?_⟩
      have hidle : D.idle s.dev = true ∧ (D.write s.dev n.word).2 = some st := by
        unfold Sys.sendEvents at hev
        cases hw : (D.write s.dev n.word).2 with
        | none => simp [hw] at hev
        | some st' => simpa [hw] using hev
      have herr := (D.write_refuse hidle.1 hidle.2).2.2.1
      unfold Sys.WillAgree
      rw [if_neg (by rintro rfl; exact absurd herr (by decide))]
      split
      · next hn =>
        subst hn
        obtain ⟨htape, htake⟩ := hD.refuse hidle.1 hidle.2
        obtain ⟨ha, he⟩ := h.refused htape htake
        exact ⟨ha.send n, he⟩
      · exact h.send n
    · exact .inl ⟨.inr hst, h.send n⟩

/-- The commands behind the queue may be sent when their turn comes. -/
theorem Sys.TapeOk.append (h : s.TapeOk) (hne : s.sec.cmdQueue ≠ []) {nodes : List LstNode}
    (hnodes : ∀ b, TapeSafe b nodes) :
    Sys.TapeOk { s with sec := { s.sec with cmdQueue := s.sec.cmdQueue ++ nodes } } := by
  unfold Sys.TapeOk at h ⊢
  cases hc : s.sec.cmdQueue with
  | nil => exact absurd hc hne
  | cons n q =>
    rw [hc] at h
    rcases h with ⟨hdev, ha⟩ | ⟨st, hrep, ha⟩
    · refine .inl ⟨?_, ha.tape, ha.safe.append hnodes⟩
      exact hdev.imp (fun h => ⟨h.exec, h.cur, h.done, h.error⟩)
        fun h => ⟨⟨h.resting, h.cur, h.done, h.error⟩, h.idle⟩
    · refine .inr ⟨st, ⟨hrep.resting, hrep.cur, hrep.status, hrep.done, hrep.error, hrep.final,
        hrep.tape, hrep.report⟩, ?_⟩
      unfold Sys.WillAgree at ha ⊢
      split
      · next hd =>
        rw [if_pos hd] at ha
        exact ⟨ha.1, ha.2.append hnodes⟩
      · next hd =>
        rw [if_neg hd] at ha
        split
        · next hn =>
          rw [if_pos hn] at ha
          exact ⟨⟨ha.1.tape, ha.1.safe.append hnodes⟩, ha.2⟩
        · next hn =>
          rw [if_neg hn] at ha
          exact ⟨ha.tape, ha.safe.append hnodes⟩

/-- As if the nodes were linked first: a send does not look at the queue. -/
theorem Sys.link_eq_sendHead (hq : s.sec.cmdQueue = []) (nodes : List LstNode) :
    s.link nodes = Sys.sendHead { s with sec := { s.sec with cmdQueue := nodes } } := by
  rw [Sys.link_of_nil hq]
  cases nodes with
  | nil => rfl
  | cons n nodes =>
    simp only [Sys.sendHead, List.head?_cons, Sys.sendOpt, Sys.send]
    cases (D.write s.dev n.word).2 with
    | none => cases D.idle s.dev <;> rfl
    | some st => rfl

theorem Sys.TapeOk.link (hD : D.KeepsTape) (h : s.TapeOk) (hf : s.Flow) {nodes : List LstNode}
    (hnodes : ∀ b, TapeSafe b nodes) : (s.link nodes).TapeOk := by
  cases hc : s.sec.cmdQueue with
  | nil =>
    unfold Sys.TapeOk at h
    rw [hc] at h
    have hs : Sys.TapeOk (Sys.sendHead { s with sec := { s.sec with cmdQueue := nodes } }) :=
      Sys.Agrees.sendHead hD ⟨h.tape, hnodes _⟩ ((hf.quiet hc).congr rfl rfl rfl rfl)
    rwa [Sys.link_eq_sendHead hc]
  | cons m q =>
    rw [Sys.link_of_ne_nil hc]
    exact h.append (by simp [hc]) hnodes

/-- The handler deals with the result of the head. -/
theorem Sys.TapeOk.complete (h : s.TapeOk) {node : LstNode} {rest : List LstNode}
    {st : SectStatus} (hq : s.sec.cmdQueue = node :: rest) (hrep : s.Reported node st)
    (hsh : s.Shaped) :
    (s.completed node rest st).Agrees (s.completed node rest st).sec.cmdQueue := by
  unfold Sys.TapeOk at h
  rw [hq] at h
  have hbits : s.done = !s.error := by rw [hrep.done, hrep.error]
  have ha : s.WillAgree node rest st := by
    rcases h with ⟨hex | hst, -⟩ | ⟨st', hrep', ha⟩
    · rw [hex.done, hex.error] at hbits
      cases hbits
    · rw [hst.done, hst.error] at hbits
      cases hbits
    · rwa [← hrep.status, hrep'.status]
  unfold Sys.WillAgree at ha
  by_cases hd : st = .done
  · rw [if_pos hd] at ha
    subst hd
    have hcq : (s.completed node rest .done).sec.cmdQueue = rest := by
      simp [Sys.completed, completeHead]
    rw [hcq]
    exact ⟨by simpa [Sys.completed, completeHead] using ha.1, ha.2⟩
  · rw [if_neg hd] at ha
    by_cases hn : st = .errNoTape
    · rw [if_pos hn] at ha
      subst hn
      exact ha.1.congr rfl (by simp [Sys.completed, completeHead])
    · rw [if_neg hn] at ha
      cases hio : node.isIoctl with
      | true =>
        have hcq : (s.completed node rest st).sec.cmdQueue = node :: rest := by
          simp [Sys.completed, completeHead, hd, hn, hio, hq]
        rw [hcq]
        exact ha.congr rfl (by simp [Sys.completed, completeHead, hd, hn, hio])
      | false =>
        -- the rest of the request is dropped: only ioctl commands are left
        obtain ⟨pre, suf, post, hp⟩ := hsh
        obtain ⟨rfl, suf', rfl, rfl⟩ := hp.head_request hq hio
        obtain ⟨-, r, -, -, hb, -⟩ := hp.request.queued (by simp)
        have hfrom : fromIoctl (suf' ++ post) = post := fromIoctl_append
          (fun m hm => (hp.mem_suf hb m (List.mem_cons_of_mem _ hm)).1) hp.ioctlPost
        have hcq : (s.completed node (suf' ++ post) st).sec.cmdQueue = post := by
          simp [Sys.completed, completeHead, hd, hn, hio, hfrom]
        rw [hcq]
        exact ⟨by simpa [Sys.completed, completeHead, hd, hn, hio] using ha.tape,
          hp.ioctlPost.tapeSafe _⟩

/-- The device completes the head. -/
theorem Sys.TapeOk.answer (hD : D.KeepsTape) (h : s.TapeOk) {a : D.α} {dev : D.σ}
    {node : LstNode} {rest : List LstNode} {st : SectStatus}
    (ht : D.tick s.dev a = some (dev, some st)) (hq : s.sec.cmdQueue = node :: rest)
    (hex : s.Executing node) : ({ s with dev := dev }.answer (some node) st).TapeOk := by
  have ha : s.Agrees (node :: rest) := by
    unfold Sys.TapeOk at h
    rw [hq] at h
    rcases h with ⟨-, ha⟩ | ⟨st, hrep, -⟩
    · exact ha
    · have hb := D.exec_busy hex.exec
      rw [hrep.resting] at hb
      cases hb
  obtain ⟨hno, htape⟩ := hD.ends ht hex.exec
  unfold Sys.TapeOk
  show match s.sec.cmdQueue with | [] => _ | n :: q => _
  rw [hq]
  refine .inr ⟨st, hex.answer ht, ?_⟩
  unfold Sys.WillAgree
  by_cases hd : st = .done
  · rw [if_pos hd] at htape ⊢
    refine ⟨?_, ?_⟩
    · show D.tapeNo dev = tapeAfter node s.sec.currentTape
      rw [htape, ha.tape]
    · have hl : decide (D.tapeNo dev ≠ NO_TAPE) = loadedAfter node.word s.loaded := by
        rw [htape]
        exact loaded_tapeAfter (hD.take hex.exec)
      show TapeSafe (decide (D.tapeNo dev ≠ NO_TAPE)) rest
      rw [hl]
      exact ha.safe.2
  · rw [if_neg hd] at htape ⊢
    rw [if_neg hno]
    refine ⟨htape.trans ha.tape, ?_⟩
    show TapeSafe (decide (D.tapeNo dev ≠ NO_TAPE)) _
    rw [htape]
    exact ha.safe

/-- A transfer goes on. -/
theorem Sys.TapeOk.goes (h : s.TapeOk) {a : D.α} {dev : D.σ}
    (ht : D.tick s.dev a = some (dev, none)) : Sys.TapeOk { s with dev := dev } := by
  obtain ⟨hex, hbusy, hidle, hstat, htape⟩ := D.tick_goes ht
  have hag : ∀ q, s.Agrees q → Sys.Agrees { s with dev := dev } q := fun q ha =>
    ⟨htape.trans ha.tape, by unfold Sys.loaded; rw [htape]; exact ha.safe⟩
  unfold Sys.TapeOk at h ⊢
  show match s.sec.cmdQueue with | [] => _ | n :: q => _
  cases hc : s.sec.cmdQueue with
  | nil =>
    rw [hc] at h
    exact hag _ h
  | cons n q =>
    rw [hc] at h
    rcases h with ⟨hdev, ha⟩ | ⟨st, hrep, ha⟩
    · refine .inl ⟨hdev.imp (fun h => ?_) fun h => ?_, hag _ ha⟩
      · exact ⟨(hex _).mp h.exec, h.cur, h.done, h.error⟩
      · exact ⟨h.toQuiet.goes ht, hidle.trans h.idle⟩
    · refine .inr ⟨st, ?_, ?_⟩
      · exact ⟨hbusy.trans hrep.resting, hrep.cur, hstat.trans hrep.status, hrep.done, hrep.error,
          hrep.final, by rw [htape]; exact hrep.tape, hrep.report⟩
      · unfold Sys.WillAgree Sys.loaded at ha ⊢
        rw [htape]
        split
        · next hd => rwa [if_pos hd] at ha
        · next hd =>
          rw [if_neg hd] at ha
          split
          · next hn =>
            rw [if_pos hn] at ha
            exact ⟨hag _ ha.1, ha.2⟩
          · next hn =>
            rw [if_neg hn] at ha
            exact hag _ ha

theorem tapeOk_step (hD : D.KeepsTape) (h : s.TapeOk) (hf : s.Flow) (hsh : s.Shaped)
    (hs : s.Step l s') : s'.TapeOk := by
  have hlink : s.linkEject.TapeOk := by
    have h' : Sys.TapeOk { s with
        nextCall := s.nextCall + 1
        sec := { s.sec with ejectionCmds := s.sec.ejectionCmds + 1 } } :=
      h.congr rfl rfl rfl rfl rfl rfl rfl
    exact h'.link hD ⟨hf.words, hf.pending, hf.tracks.congr rfl rfl rfl rfl rfl, hf.snap⟩
      (IoctlNodes.single _).tapeSafe
  cases hs with
  | submit write start env ho hi => exact h.congr rfl rfl rfl rfl rfl rfl rfl
  | unsupported start env ho hi => exact h.congr rfl rfl rfl rfl rfl rfl rfl
  | built r write start env st hsub hp => exact h.congr rfl rfl rfl rfl rfl rfl rfl
  | notBuilt r write start env e hsub hp => exact h.congr rfl rfl rfl rfl rfl rfl rfl
  | splice r nodes hsub =>
    have hl : lastReport (s.log ++ [.queued r nodes]) = lastReport s.log := by
      simp [lastReport_append, Event.report]
    have hnodes : BuiltFor r nodes := by
      obtain ⟨pre, suf, post, hp⟩ := hsh
      have hreq := hp.request
      unfold Sys.RequestOk at hreq
      rw [hsub] at hreq
      exact hreq.2.2.2
    have h' : Sys.TapeOk { s with log := s.log ++ [.queued r nodes] } :=
      h.congr rfl rfl rfl rfl rfl rfl hl
    have hf' : Sys.Flow { s with log := s.log ++ [.queued r nodes] } :=
      ⟨hf.words, hf.pending, hf.tracks.congr rfl rfl rfl rfl hl, hf.snap⟩
    exact (h'.link hD hf' hnodes.tapeSafe).congr rfl rfl rfl rfl rfl rfl rfl
  | fail r status hsub =>
    refine h.congr rfl rfl rfl rfl rfl rfl ?_
    split <;> simp [lastReport_append, Event.report]
  | ejectOom =>
    exact h.congr rfl rfl rfl rfl rfl rfl (by simp [lastReport_append, Event.report])
  | ejectReturn hfl =>
    exact hlink.congr rfl rfl rfl rfl rfl rfl
      (by simp [Sys.consume, lastReport_append, Event.report])
  | ejectWait hfl => exact hlink.congr rfl rfl rfl rfl rfl rfl rfl
  | wake c hc hfl =>
    exact h.congr rfl rfl rfl rfl rfl rfl (by simp [Sys.consume, lastReport_append, Event.report])
  | signal c hc hfl =>
    exact h.congr rfl rfl rfl rfl rfl rfl (by simp [lastReport_append, Event.report])
  | snapshot hirq => exact h.congr rfl rfl rfl rfl rfl rfl rfl
  | readStatus done error hirq => exact h.congr rfl rfl rfl rfl rfl rfl rfl
  | nothing sn hirq hd he => exact h.congr rfl rfl rfl rfl rfl rfl rfl
  | complete node rest st hirq hq hrep =>
    exact (h.complete hq hrep hsh).sendHead hD ⟨hrep.resting, hrep.cur, rfl, rfl⟩
  | goes a dev ht => exact h.goes ht
  | answers a dev node rest st ht hq hex => exact h.answer hD ht hq hex
  | otherLine level => exact h.congr rfl rfl rfl rfl rfl rfl rfl

end

/-- The driver has read the number of the loaded tape, as `tapedev_probe` does. -/
structure Sys.Probed (s : Sys D) : Prop extends s.Initial where
  currentTape : s.sec.currentTape = D.tapeNo s.dev

theorem Sys.Probed.reachOn {G : Sys D → Label D → Prop} {s : Sys D}
    (h : (systemFrom D Sys.Probed).ReachOn G s) : (system D).ReachOn G s :=
  h.restart (fun _ hi => .init hi.toInitial) rfl

theorem tapeOk_reachOn (hD : D.KeepsTape) {G : Sys D → Label D → Prop} {s : Sys D}
    (h : (systemFrom D Sys.Probed).ReachOn G s) : s.TapeOk := by
  refine Lts.invariantOn (M := systemFrom D Sys.Probed) (P := Sys.TapeOk) (fun s hi => ?_)
    (fun s l s' hr hp hg hs => ?_) h
  · unfold Sys.TapeOk
    rw [hi.queue]
    exact ⟨hi.currentTape.symm, trivial⟩
  · have hr' := Sys.Probed.reachOn hr
    have hf : s.Flow := flow_reachOn (fun _ => Sys.Initial.flow) hr'
    exact tapeOk_step hD hp hf (shaped_reachOn hr') (Sys.next_step hf hs)

/-- A DONE interrupt: the command at the head is done, and the device has the tape it
says. -/
theorem Sys.Flow.handle_done_err {s : Sys D} (h : s.Flow) {st : SectStatus}
    (hirq : s.irq = some ⟨true, false, some st⟩) :
    (handleSectionInterrupt true false st (D.tapeNo s.dev) s.sec).err = 0 := by
  obtain ⟨s', hs⟩ : ∃ s', s.handle = some s' := by simp [Sys.handle, hirq]
  rcases h.handle_cases hs with ⟨sn, hsn, hd, -, -⟩ | ⟨node, rest, st', hirq', hq, hrep, -⟩
  · rw [hirq] at hsn
    cases hsn
    cases hd
  · rw [hirq] at hirq'
    simp only [Option.some.injEq, Snapshot.mk.injEq] at hirq'
    obtain ⟨-, herr, rfl⟩ := hirq'
    have hdone : st = .done := hrep.final.resolve_left (by rw [← herr]; decide)
    subst hdone
    obtain ⟨htake, heject⟩ := hrep.tape rfl
    rw [handle_done hq (h.words node (by rw [hq]; exact List.mem_cons_self)) htake heject]

/-- Whenever the queue is empty, `sec->current_tape` is the tape loaded in the device.
And whenever the handler deals with a DONE interrupt, it does not report an error: the
TAPE_NO register holds the tape the handler expects. -/
theorem current_tape_coherent {β : Type} {s : Sys (realDevice β)}
    (h : (systemFrom (realDevice β) Sys.Probed).Reach s) :
    (s.sec.cmdQueue = [] → s.sec.currentTape = s.dev.sec.aaaa) ∧
    ∀ st, s.irq = some ⟨true, false, some st⟩ →
      (handleSectionInterrupt true false st s.dev.sec.aaaa s.sec).err = 0 := by
  have hok := tapeOk_reachOn (realDevice_keepsTape β) h
  refine ⟨fun hq => ?_, fun st hirq => ?_⟩
  · unfold Sys.TapeOk at hok
    rw [hq] at hok
    exact hok.tape.symm
  · exact (flow_reachOn (fun _ => Sys.Initial.flow) (Sys.Probed.reachOn h)).handle_done_err hirq

/-- An EJECT of the loaded tape, up to the handler's look at its result. -/
theorem current_tape_coherent_eject :
    ∃ s : Sys (realDevice Nat), (systemFrom (realDevice Nat) Sys.Probed).Reach s ∧
      s.irq = some ⟨true, false, some .done⟩ ∧ s.dev.sec.aaaa = 0 ∧ s.sec.currentTape = 1 ∧
      (handleSectionInterrupt true false .done s.dev.sec.aaaa s.sec).err = 0 := by
  let run : List (Label (realDevice Nat)) :=
    [.eject false, .tick (.io ⟨none, true, true, true⟩), .snapshot, .readStatus]
  let M := systemFrom (realDevice Nat) Sys.Probed
  let s := (M.exec probedSection run).get (by decide +kernel)
  have hs : M.exec probedSection run = some s := (Option.some_get _).symm
  have hr : M.Reach s := Lts.reach_exec (.init ⟨probedSection_initial, rfl⟩) hs
  have hirq : s.irq = some ⟨true, false, some .done⟩ := by decide +kernel
  exact ⟨s, hr, hirq, by decide +kernel, by decide +kernel, (current_tape_coherent hr).2 .done hirq⟩

/-! ## ERR_NO_TAPE -/

/-- A command of a request for which the handler has read ERR_NO_TAPE is an EJECT. -/
theorem ejectOnly_reachOn (hD : D.KeepsTape) {G : Sys D → Label D → Prop} {s : Sys D}
    (h : (systemFrom D Sys.Probed).ReachOn G s) {node : LstNode} {rest : List LstNode} {done : Bool}
    (hq : s.sec.cmdQueue = node :: rest) (hirq : s.irq = some ⟨done, true, some .errNoTape⟩) :
    fieldCmd node.word = CMD_EJECT_TAPE := by
  have hf : s.Flow := flow_reachOn (fun _ => Sys.Initial.flow) (Sys.Probed.reachOn h)
  obtain ⟨-, he, hst⟩ := hf.snap _ hirq
  have hok := tapeOk_reachOn hD h
  unfold Sys.TapeOk at hok
  rw [hq] at hok
  rcases hok with ⟨hex | hstuck, -⟩ | ⟨st, hrep, ha⟩
  · exact absurd (he rfl) (by rw [hex.error]; decide)
  · exact absurd (he rfl) (by rw [hstuck.error]; decide)
  · have hno : st = .errNoTape := hrep.status.symm.trans (hst _ rfl (.inr rfl)).symm
    subst hno
    simp only [Sys.WillAgree, reduceCtorEq, if_false, if_true] at ha
    exact ha.2

end Zso.Tape

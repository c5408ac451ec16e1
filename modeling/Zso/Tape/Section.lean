import Zso.Tape.Device

/-!
# The driver's side of one section

`struct section` and the functions that run under its spinlock: the interrupt
handling of `tapedev_irq.c` and the critical sections of the EJECT ioctl. Each is
a function of the section and of the register values it reads; a call of
`blk_mq_end_request` is an event in its result.

The queue's nodes carry an owner that the driver does not have. No function here
looks at it.
-/

namespace Zso.Tape

/-- Who put a node on the queue. -/
inductive Owner
  | request (r : Nat)
  | ioctl (c : Nat)
deriving DecidableEq, Repr

/-- `struct lst_node` -/
structure LstNode where
  cmd : SectionCmd
  owner : Owner
deriving DecidableEq, Repr

/-- `node->cmd.is_ioctl` -/
def LstNode.isIoctl (n : LstNode) : Bool := n.cmd.isIoctl

/-- The command word. -/
def LstNode.word (n : LstNode) : Nat := n.cmd.cmd

/-- The node of an EJECT ioctl. -/
def ioctlNode (c : Nat) : LstNode := ⟨⟨CMD_EJECT_TAPE, true⟩, .ioctl c⟩

/-- The fields of `struct section` that change while it is in use. -/
structure Section where
  info : SectionInfo
  currentTape : Nat
  ejectionCmds : Nat
  ioctlCmdDone : Bool
  status : Int
  ioctlStatus : Int
  cpuDmaBuf : Nat → Nat
  req : Option Nat
  cmdQueue : List LstNode

/-- What happens to a section, for the statements about whole runs. -/
inductive Event
  /-- the commands of a request are linked into the queue -/
  | queued (r : Nat) (nodes : List LstNode)
  /-- a write of the CMD register; an idle device accepts it -/
  | sent (node : LstNode) (accepted : Bool)
  /-- the device completes the command -/
  | answered (node : LstNode) (status : SectStatus)
  /-- `blk_mq_end_request`, with the value of `sec->req` -/
  | ended (r : Nat) (status : BlkStatus) (secReq : Option Nat)
  /-- an EJECT ioctl returns -/
  | returned (c : Nat) (code : Int)
  /-- `list_first_entry` of an empty queue -/
  | noFirstEntry
deriving DecidableEq, Repr

/-! ## Ending a request -/

/-- `_end_request_helper` -/
def endRequestHelper (sec : Section) (status : BlkStatus) : Section × List Event :=
  match sec.req with
  | some r => ({ sec with req := none }, [.ended r status (some r)])
  | none => (sec, [])

/-- `__end_req_if_completed` -/
def endReqIfCompleted (sec : Section) (currCmd : SectionCmd) : Section × List Event :=
  match sec.cmdQueue with
  | [] => if currCmd.isIoctl then (sec, []) else endRequestHelper sec .ok
  | next :: _ =>
    if next.isIoctl && !currCmd.isIoctl then endRequestHelper sec .ok else (sec, [])

/-- The loop of `__abort_rest_of_req_cmds`. -/
def abortLoop (sec : Section) : List LstNode → Section × List Event
  | [] => ({ sec with cmdQueue := [] }, [])
  | node :: rest =>
    if node.isIoctl then endRequestHelper { sec with cmdQueue := node :: rest } .ioerr
    else abortLoop sec rest

/-- `__abort_rest_of_req_cmds` -/
def abortRestOfReqCmds (sec : Section) : Section × List Event :=
  let r := abortLoop sec sec.cmdQueue
  ({ r.1 with req := none }, r.2)

/-! ## Interrupts -/

/-- The value `err` gets in the switch of `__handle_section_error`. -/
def errOfStatus (st : SectStatus) : Int := if st.isErr then st.code else 0x8A

/-- `__handle_section_error`, with its return value. -/
def handleSectionError (st : SectStatus) (sec : Section) : Section × List Event × Int :=
  match sec.cmdQueue with
  | [] => (sec, [.noFirstEntry], -errOfStatus st)
  | node :: rest =>
    -- ERR_NO_TAPE takes the node off the queue, the other statuses leave it
    let sec :=
      if st = .errNoTape then
        let sec := { sec with cmdQueue := rest }
        if node.isIoctl then
          { sec with ioctlCmdDone := true, ioctlStatus := SectStatus.errNoTape.code }
        else sec
      else sec
    let sec := { sec with status := -errOfStatus st }
    if node.isIoctl then (sec, [], -errOfStatus st)
    else if st = .errNoTape then (sec, [], -errOfStatus st)
    else
      let r := abortRestOfReqCmds sec
      if r.1.cmdQueue = [] then
        let r' := endRequestHelper r.1 .ioerr
        (r'.1, r.2 ++ r'.2, -errOfStatus st)
      else (r.1, r.2, -errOfStatus st)

/-- `__handle_section_done`; `tapeNo` is the TAPE_NO register. -/
def handleSectionDone (st : SectStatus) (tapeNo : Nat) (sec : Section) :
    Section × List Event × Int :=
  if st ≠ .done then (sec, [], -1)
  else
    match sec.cmdQueue with
    | [] => (sec, [], -1)
    | node :: rest =>
      let sec := { sec with status := SectStatus.done.code, cmdQueue := rest }
      let finish (sec : Section) : Section × List Event × Int :=
        let r := endReqIfCompleted sec node.cmd
        (r.1, r.2, 0)
      match getCmdType node.word with
      | CMD_TAKE_TAPE =>
        let sec := { sec with currentTape := getCmdBody node.word >>> 8 }
        if tapeNo ≠ sec.currentTape then (sec, [], -1) else finish sec
      | CMD_EJECT_TAPE =>
        let sec := { sec with currentTape := NO_TAPE }
        if tapeNo ≠ NO_TAPE then (sec, [], -1)
        else finish (if node.isIoctl then { sec with ioctlCmdDone := true } else sec)
      | CMD_REWIND => finish sec
      | CMD_FAST_FWD => finish sec
      | CMD_READ => finish sec
      | CMD_WRITE => finish sec
      | _ => (sec, [], -2)

/-- `__handle_next_cmd`: the node whose command is sent. -/
def handleNextCmd (sec : Section) : Option LstNode := sec.cmdQueue.head?

/-- What the handling of one interrupt does: the interrupt bit it clears first, and
the command it sends last. -/
structure Handled where
  sec : Section
  events : List Event
  clear : Option Irq
  send : Option LstNode
  err : Int

/-- `_handle_section_interrupt` -/
def handleSectionInterrupt (sectionDone sectionError : Bool) (st : SectStatus) (tapeNo : Nat)
    (sec : Section) : Handled :=
  if st = .working then
    ⟨{ sec with status := SectStatus.working.code }, [], none, none, 0⟩
  else if sectionError then
    let r := handleSectionError st sec
    ⟨r.1, r.2.1, some .error, handleNextCmd r.1, r.2.2⟩
  else if sectionDone then
    let r := handleSectionDone st tapeNo sec
    if r.2.2 ≠ 0 then ⟨r.1, r.2.1, some .done, none, r.2.2⟩
    else ⟨r.1, r.2.1, some .done, handleNextCmd r.1, 0⟩
  else
    let sec := { sec with status := SectStatus.idle.code }
    ⟨sec, [], none, handleNextCmd sec, 0⟩

/-! ## The EJECT ioctl -/

/-- The end of an EJECT ioctl, once `ioctl_cmd_done` is set. -/
def ejectConsume (sec : Section) : Section × Int :=
  ({ sec with
      ejectionCmds := sec.ejectionCmds - 1
      ioctlCmdDone := false
      ioctlStatus := 0 },
    if sec.ioctlStatus = SectStatus.errNoTape.code then - EIO else 0)

/-! ## What each case of the handler does -/

/-- The calls of `blk_mq_end_request` that `_end_request_helper` makes. -/
def endEvents (req : Option Nat) (status : BlkStatus) : List Event :=
  match req with
  | some r => [.ended r status (some r)]
  | none => []

/-- The queue from its first ioctl command on. -/
def fromIoctl (q : List LstNode) : List LstNode := q.dropWhile fun n => !n.isIoctl

/-- A command of a request with no command of a request behind it. -/
def lastOfRequest (node : LstNode) (rest : List LstNode) : Bool :=
  !node.isIoctl && (rest.head?.elim true LstNode.isIoctl)

/-- The tape the driver believes loaded after a command is done. -/
def tapeAfter (node : LstNode) (tape : Nat) : Nat :=
  match fieldCmd node.word with
  | CMD_TAKE_TAPE => fieldArg node.word
  | CMD_EJECT_TAPE => NO_TAPE
  | _ => tape

theorem endRequestHelper_eq (sec : Section) (status : BlkStatus) :
    endRequestHelper sec status = ({ sec with req := none }, endEvents sec.req status) := by
  cases sec with
  | mk info currentTape ejectionCmds ioctlCmdDone st ioctlStatus cpuDmaBuf req cmdQueue =>
    cases req <;> rfl

theorem endReqIfCompleted_eq (sec : Section) (node : LstNode) :
    endReqIfCompleted sec node.cmd =
      if lastOfRequest node sec.cmdQueue then ({ sec with req := none }, endEvents sec.req .ok)
      else (sec, []) := by
  unfold endReqIfCompleted lastOfRequest LstNode.isIoctl
  cases hq : sec.cmdQueue with
  | nil => cases node.cmd.isIoctl <;> simp [endRequestHelper_eq, hq]
  | cons next rest =>
    cases hn : next.cmd.isIoctl <;> cases node.cmd.isIoctl <;> simp [endRequestHelper_eq, hn, hq]

theorem abortLoop_eq (sec : Section) (q : List LstNode) :
    abortLoop sec q =
      if fromIoctl q = [] then ({ sec with cmdQueue := [] }, [])
      else ({ sec with cmdQueue := fromIoctl q, req := none }, endEvents sec.req .ioerr) := by
  induction q with
  | nil => rfl
  | cons node rest ih =>
    cases hn : node.isIoctl with
    | true => simp [abortLoop, fromIoctl, hn, endRequestHelper_eq]
    | false =>
      have hd : fromIoctl (node :: rest) = fromIoctl rest := by simp [fromIoctl, hn]
      simp only [abortLoop, hn, Bool.false_eq_true, if_false, hd, ih]

/-- The abort drops the queue up to the first ioctl command. The request is ended
only if there is one. -/
theorem abortRestOfReqCmds_eq (sec : Section) :
    abortRestOfReqCmds sec =
      ({ sec with cmdQueue := fromIoctl sec.cmdQueue, req := none },
        if fromIoctl sec.cmdQueue = [] then [] else endEvents sec.req .ioerr) := by
  unfold abortRestOfReqCmds
  rw [abortLoop_eq]
  split
  · next h => rw [h]
  · rfl

/-- What the handler makes of the status `st` of the command at the head of the
queue `node :: rest`. -/
def completeHead (sec : Section) (node : LstNode) (rest : List LstNode) (st : SectStatus) :
    Section × List Event :=
  if st = .done then
    ({ sec with
        status := SectStatus.done.code
        cmdQueue := rest
        currentTape := tapeAfter node sec.currentTape
        ioctlCmdDone :=
          sec.ioctlCmdDone || (node.isIoctl && (fieldCmd node.word == CMD_EJECT_TAPE))
        req := if lastOfRequest node rest then none else sec.req },
      if lastOfRequest node rest then endEvents sec.req .ok else [])
  else if st = .errNoTape then
    -- taken off the queue, whoever sent it
    ({ sec with
        status := -errOfStatus .errNoTape
        cmdQueue := rest
        ioctlCmdDone := sec.ioctlCmdDone || node.isIoctl
        ioctlStatus := if node.isIoctl then SectStatus.errNoTape.code else sec.ioctlStatus }, [])
  else if node.isIoctl then
    -- stays at the head, and is sent again
    ({ sec with status := -errOfStatus st }, [])
  else
    -- the rest of the request is dropped; it is ended only if an ioctl command is behind it
    ({ sec with status := -errOfStatus st, cmdQueue := fromIoctl rest, req := none },
      if fromIoctl rest = [] then [] else endEvents sec.req .ioerr)

/-- A completion leaves the geometry and the page table alone. -/
theorem completeHead_frame (sec : Section) (node : LstNode) (rest : List LstNode)
    (st : SectStatus) : (completeHead sec node rest st).1.info = sec.info ∧
      (completeHead sec node rest st).1.cpuDmaBuf = sec.cpuDmaBuf := by
  unfold completeHead
  split
  · exact ⟨rfl, rfl⟩
  · split
    · exact ⟨rfl, rfl⟩
    · split <;> exact ⟨rfl, rfl⟩

/-- The result of an ioctl command does not concern the request. -/
theorem completeHead_ioctl {node : LstNode} (hio : node.isIoctl = true) (sec : Section)
    (rest : List LstNode) (st : SectStatus) :
    (completeHead sec node rest st).2 = [] ∧ (completeHead sec node rest st).1.req = sec.req ∧
    (completeHead sec node rest st).1.cmdQueue =
      if st = .done ∨ st = .errNoTape then rest else sec.cmdQueue := by
  have hlast : lastOfRequest node rest = false := by simp [lastOfRequest, hio]
  by_cases hd : st = .done
  · simp [completeHead, hd, hlast]
  · by_cases hn : st = .errNoTape
    · simp [completeHead, hn]
    · simp [completeHead, hd, hn, hio]

section
variable {sec : Section} {node : LstNode} {rest : List LstNode}

theorem handle_done (hq : sec.cmdQueue = node :: rest) {tapeNo : Nat}
    (hword : fieldCmd node.word ≤ CMD_WRITE)
    (htake : fieldCmd node.word = CMD_TAKE_TAPE → tapeNo = fieldArg node.word)
    (heject : fieldCmd node.word = CMD_EJECT_TAPE → tapeNo = NO_TAPE) :
    handleSectionInterrupt true false .done tapeNo sec =
      ⟨(completeHead sec node rest .done).1, (completeHead sec node rest .done).2, some .done,
        rest.head?, 0⟩ := by
  have htype : getCmdType node.word = fieldCmd node.word := rfl
  have hdone : (SectStatus.done = SectStatus.working) = False := by simp
  -- the branches of the switch, one for each command type
  have hcases : fieldCmd node.word = 0 ∨ fieldCmd node.word = 1 ∨ fieldCmd node.word = 2 ∨
      fieldCmd node.word = 3 ∨ fieldCmd node.word = 4 ∨ fieldCmd node.word = 5 := by
    simp only [CMD_WRITE] at hword
    omega
  rcases hcases with h | h | h | h | h | h
  · have ht := htake h
    simp only [handleSectionInterrupt, hdone, if_false, if_true, handleSectionDone, ne_eq,
      not_true_eq_false, hq, htype, h, getCmdBody_shr, ht, endReqIfCompleted_eq, completeHead,
      tapeAfter]
    cases lastOfRequest node rest <;> simp [handleNextCmd]
  · have ht := heject h
    simp only [handleSectionInterrupt, hdone, if_false, if_true, handleSectionDone, ne_eq,
      not_true_eq_false, hq, htype, h, ht, endReqIfCompleted_eq, completeHead, tapeAfter]
    cases hio : node.isIoctl <;> cases hl : lastOfRequest node rest <;> simp [handleNextCmd, hl]
  all_goals
    simp only [handleSectionInterrupt, hdone, if_false, if_true, handleSectionDone, ne_eq,
      not_true_eq_false, hq, htype, h, endReqIfCompleted_eq, completeHead, tapeAfter]
    cases lastOfRequest node rest <;> simp [handleNextCmd]

theorem handle_error (hq : sec.cmdQueue = node :: rest) {st : SectStatus} (hst : st.isErr = true)
    (sectionDone : Bool) (tapeNo : Nat) :
    handleSectionInterrupt sectionDone true st tapeNo sec =
      ⟨(completeHead sec node rest st).1, (completeHead sec node rest st).2, some .error,
        (completeHead sec node rest st).1.cmdQueue.head?, -errOfStatus st⟩ := by
  have hw : st ≠ .working := by
    rintro rfl
    exact absurd hst (by decide)
  have hd : st ≠ .done := by
    rintro rfl
    exact absurd hst (by decide)
  simp only [handleSectionInterrupt, hw, if_false, if_true, handleSectionError, hq, completeHead, hd]
  by_cases hn : st = .errNoTape
  · subst hn
    cases node.isIoctl <;> simp [handleNextCmd]
  · cases hio : node.isIoctl with
    | true => simp [hn, handleNextCmd, hq]
    | false =>
      have hfrom : fromIoctl (node :: rest) = fromIoctl rest := by simp [fromIoctl, hio]
      simp only [hn, if_false, abortRestOfReqCmds_eq, hq, hfrom, endRequestHelper_eq,
        Bool.false_eq_true]
      by_cases hr : fromIoctl rest = []
      · simp [hr, handleNextCmd, endEvents]
      · simp [hr, handleNextCmd]

end

end Zso.Tape

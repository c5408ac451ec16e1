import Mathlib.Data.List.DropRight
import Mathlib.Data.Prod.Lex
import Zso.Lib.Fairness
import Zso.Tape.Machine
import Zso.Tape.Refinement

/-!
# Requests come to an end

A request that has been handed over is worked on by three threads: the one that submits
it, the device, and the interrupt handler. At every moment one of them is due, and each
of its steps brings the end of the request nearer (`Sys.rank`). What the others do does
not put it off: an EJECT ioctl queues its command behind the request.
-/

namespace Zso.Tape
open Transition

variable {β : Type}

/-! ## The device -/

/-- A transfer that goes on has fewer blocks left. -/
theorem Dev.move_left {d d' : Dev β} {x : Io} (h : d.move (.io x) = some (d', none)) :
    d.sec.aadg.busy = true ∧ d'.sec.aadg.busy = true ∧ d'.sec.aaal < d.sec.aaal := by
  rcases Dev.move_cases h with ⟨mem, hm, -⟩ | ⟨x', hx, hb, ⟨a, hd, hrw, hgo, -⟩ | hend⟩
  · cases hm
  · refine ⟨hb, by rw [hd, hgo.aadg]; exact hb, ?_⟩
    have hr := (Dev.move_io h).2
    obtain ⟨hd', ho⟩ := Prod.mk.inj hr
    have hsilent : (aabf d.sec d.mem x).1.2 = none := by
      unfold answerStatus at ho
      exact Option.map_eq_none_iff.mp ho.symm
    rw [hd']
    unfold aabf at hsilent ⊢
    rcases hrw with hg | hg
    · rw [hg] at hsilent ⊢
      exact aabo_left hsilent
    · rw [hg] at hsilent ⊢
      exact aabo_left hsilent
  · obtain ⟨s', g, st, -, ho, -⟩ := hend
    cases ho

/-! ## The line -/

/-- A bit that is set has raised the line. -/
def Sys.Heard {D : DevModel} (s : Sys D) : Prop := s.done = true ∨ s.error = true → s.line = true

/-- As long as the line is the section's alone. -/
theorem heard_step {D : DevModel} {s t : Sys D} {l : Label D} (h : s.Heard) (hs : s.Step l t)
    (hl : ∀ level, l ≠ .otherLine level) : t.Heard := by
  intro hb
  by_contra hline
  have hlow : t.line = false := by simpa using hline
  cases hown : l.isOwn with
  | true =>
    have hu := (hs.own hown).2 hlow
    rw [hu.done, hu.error] at hb
    cases hu.line.symm.trans (h hb)
  | false =>
    cases hs with
    | snapshot => exact hline (h hb)
    | readStatus => exact hline (h hb)
    | nothing => exact hline (h hb)
    | complete node rest st hirq hq hrep =>
      have hu : (s.completed node rest st).Unraised (s.completed node rest st).sendHead :=
        Sys.sendOpt_unraised hlow
      rw [hu.done, hu.error] at hb
      rcases hb with hb | hb <;> cases hb
    | otherLine level => exact hl level rfl
    | _ => cases hown

/-! ## The queue -/

/-- The commands up to the last one of the request. -/
def ahead (q : List LstNode) : Nat := (q.rdropWhile LstNode.isIoctl).length

theorem ahead_ne_zero {q : List LstNode} {n : LstNode} (hn : n ∈ q) (h : n.isIoctl = false) :
    ahead q ≠ 0 := by
  intro h0
  have hall := List.rdropWhile_eq_nil_iff.mp (List.eq_nil_of_length_eq_zero h0) n hn
  rw [h] at hall
  cases hall

theorem ahead_snoc (q : List LstNode) (c : Nat) : ahead (q ++ [ioctlNode c]) = ahead q := by
  unfold ahead
  rw [List.rdropWhile_concat_pos _ _ _ rfl]

theorem ahead_cons {q : List LstNode} (n : LstNode) (h : ahead q ≠ 0) : ahead q < ahead (n :: q) := by
  unfold ahead List.rdropWhile at h ⊢
  rw [List.length_reverse] at h
  have hne : (q.reverse.dropWhile LstNode.isIoctl).isEmpty = false := by
    rw [List.isEmpty_eq_false_iff]
    exact List.ne_nil_of_length_pos (Nat.pos_of_ne_zero h)
  rw [List.reverse_cons, List.dropWhile_append, hne]
  simp

/-! ## The threads -/

/-- Who works on a request. -/
inductive Thread
  /-- in `tapedev_queue_rq` -/
  | submitter
  | device
  /-- `tapedev_interrupt_handler` -/
  | handler

/-- The thread has something to do. -/
def Thread.Due (s : Sys (realDevice β)) : Thread → Prop
  | .submitter => s.submit ≠ .idle
  | .device => s.dev.sec.aadg.busy = true
  | .handler => s.irq ≠ none ∨ s.line = true

/-- The thread that takes the step. The ioctls and the CPU are not needed for a request. -/
def takenBy : Label (realDevice β) → Option Thread
  | .build => some .submitter
  | .splice => some .submitter
  | .fail => some .submitter
  | .tick (.io _) => some .device
  | .snapshot => some .handler
  | .readStatus => some .handler
  | .handle => some .handler
  | _ => none

/-- The thread does something. -/
def Thread.Does (l : Label (realDevice β)) (th : Thread) : Prop := takenBy l = some th

/-- What is left to the handler of a section that reports something. A snapshot without the
bits is of no use, and another one is needed. -/
def handlerRank : Option Snapshot → Nat
  | none => 3
  | some ⟨done, error, none⟩ => if done || error then 2 else 5
  | some ⟨done, error, some _⟩ => if done || error then 1 else 4

/-- What is left to do about the head. -/
def Sys.work (s : Sys (realDevice β)) : Nat :=
  if s.dev.sec.aadg.busy then 6 + s.dev.sec.aaal else handlerRank s.irq

/-- What is left of a submission. -/
def Submit.left : Submit → Nat
  | .idle => 0
  | .started .. => 2
  | _ => 1

/-- What is left to do about the request: to submit it, and then to serve its commands. -/
def Sys.rank (s : Sys (realDevice β)) : ℕ ×ₗ ℕ ×ₗ ℕ :=
  toLex (s.submit.left,
    match s.submit with
    | .idle => toLex (ahead s.sec.cmdQueue, s.work)
    | _ => toLex (0, 0))

/-- The thread the request waits for. -/
def Sys.duty (s : Sys (realDevice β)) : Thread :=
  match s.submit with
  | .idle => if s.dev.sec.aadg.busy then .device else .handler
  | _ => .submitter

/-- A step from `s` to `t` brings the end of the request nearer, or it leaves that to the
thread whose turn it is. -/
def Sys.Advances (s t : Sys (realDevice β)) (l : Label (realDevice β)) : Prop :=
  t.rank < s.rank ∨ t.rank = s.rank ∧ t.duty = s.duty ∧ ¬ s.duty.Does l

section
variable {s t : Sys (realDevice β)} {f f' : Flat β} {l : Label (realDevice β)} {r : Nat}
  {q : Request}

theorem handlerRank_le (irq : Option Snapshot) : handlerRank irq ≤ 5 := by
  unfold handlerRank
  split
  · decide
  · split <;> decide
  · split <;> decide

theorem Sys.rank_idle (h : s.submit = .idle) :
    s.rank = toLex (0, toLex (ahead s.sec.cmdQueue, s.work)) := by
  unfold Sys.rank
  rw [h]
  rfl

theorem Sys.duty_idle (h : s.submit = .idle) :
    s.duty = if s.dev.sec.aadg.busy then .device else .handler := by
  unfold Sys.duty
  rw [h]

theorem Sys.duty_submitting (h : s.submit ≠ .idle) : s.duty = .submitter := by
  unfold Sys.duty
  split
  · next hi => exact absurd hi h
  · rfl

/-- The submission has come further. -/
theorem Sys.advances_left (h : t.submit.left < s.submit.left) : s.Advances t l :=
  .inl (Prod.Lex.toLex_lt_toLex.mpr (.inl h))

/-- Another thread's step while the request is being submitted. -/
theorem Sys.advances_submitting (h : s.submit ≠ .idle) (ht : t.submit = s.submit)
    (hl : ¬ Thread.submitter.Does l) : s.Advances t l := by
  refine .inr ⟨?_, ?_, ?_⟩
  · unfold Sys.rank
    rw [ht]
    split
    · next hi => exact absurd hi h
    · rfl
  · rw [Sys.duty_submitting h, Sys.duty_submitting (ht ▸ h)]
  · rw [Sys.duty_submitting h]
    exact hl

/-- The work on the head goes on. -/
theorem Sys.advances_work (hs : s.submit = .idle) (ht : t.submit = .idle)
    (hq : t.sec.cmdQueue = s.sec.cmdQueue) (hw : t.work < s.work) : s.Advances t l := by
  refine .inl ?_
  rw [Sys.rank_idle hs, Sys.rank_idle ht, hq]
  exact Prod.Lex.toLex_lt_toLex.mpr (.inr ⟨rfl, Prod.Lex.toLex_lt_toLex.mpr (.inr ⟨rfl, hw⟩)⟩)

/-- A step that does not concern the request. -/
theorem Sys.advances_same (hs : s.submit = .idle) (ht : t.submit = .idle)
    (hq : ahead t.sec.cmdQueue = ahead s.sec.cmdQueue) (hdev : t.dev.sec = s.dev.sec)
    (hirq : s.dev.sec.aadg.busy = false → t.irq = s.irq)
    (hl : ¬ s.duty.Does l) : s.Advances t l := by
  refine .inr ⟨?_, ?_, hl⟩
  · have hw : t.work = s.work := by
      unfold Sys.work
      rw [hdev]
      split
      · rfl
      · next hb => rw [hirq (by simpa using hb)]
    rw [Sys.rank_idle hs, Sys.rank_idle ht, hq, hw]
  · rw [Sys.duty_idle hs, Sys.duty_idle ht, hdev]

/-! ## One step -/

theorem Sys.Serving.outstanding_eq (h : s.Serving f) : s.outstanding = f.pending.map Prod.fst := by
  cases h with
  | free hp ho => rw [hp, ho]; rfl
  | submitting r q hown => rw [hown.pending, hown.outstanding]; rfl
  | queued r q pre post hown => rw [hown.pending, hown.outstanding]; rfl
  | served r q i post hown => rw [hown.pending, hown.outstanding]; rfl

/-- The commands of a request that has been submitted are queued. -/
theorem Sys.Serving.ahead_ne_zero (h : s.Serving f) (hp : f.pending = some (r, q))
    (hi : s.submit = .idle) : ahead s.sec.cmdQueue ≠ 0 := by
  cases h with
  | free hp' => cases hp.symm.trans hp'
  | submitting r' q' hown hsub hq he =>
    rw [Sys.Submits, hi] at hsub
    rcases hsub with hsub | ⟨st, hsub, -⟩ | ⟨hsub, -⟩ <;> cases hsub
  | queued r' q' pre post hown hi' hb hq hne hpre hpost he =>
    obtain ⟨c, -, hdrop⟩ := q'.drop_nodes s.sec.info.blocksInTape r' (show 0 < 5 by decide)
    refine Zso.Tape.ahead_ne_zero (n := ⟨c.node, .request r'⟩) ?_ rfl
    rw [hq]
    refine List.mem_append_left _ (List.mem_append_right _ (List.mem_of_mem_drop (i := 0) ?_))
    rw [hdrop]
    exact List.mem_cons_self
  | served r' q' i post hown hi' hb hat =>
    obtain ⟨n, c, hn, hc, -⟩ := hat.head
    have hi5 : i < 5 := (List.getElem?_eq_some_iff.mp hc).1
    obtain ⟨c', -, hdrop⟩ := q'.drop_nodes s.sec.info.blocksInTape r' hi5
    refine Zso.Tape.ahead_ne_zero (n := ⟨c'.node, .request r'⟩) ?_ rfl
    rw [hat.queue, hdrop]
    exact List.mem_cons_self

/-- The device rests, so the result of the head is reported. -/
theorem Sys.Serving.reported (h : s.Serving f) (hr : s.Ready) (hf : s.Flow)
    (hp : f.pending = some (r, q)) (hi : s.submit = .idle) (hb : s.dev.sec.aadg.busy = false) :
    s.done = true ∨ s.error = true := by
  have ht := hf.tracks
  cases hq : s.sec.cmdQueue with
  | nil =>
    have h0 := h.ahead_ne_zero hp hi
    rw [hq] at h0
    exact absurd rfl h0
  | cons n rest =>
    rw [hq] at ht
    rcases ht with hex | ⟨st, hrep⟩ | hst
    · cases hb.symm.trans ((realDevice β).exec_busy hex.exec)
    · rw [hrep.done, hrep.error]
      cases st.isErr <;> decide
    · have hidle : (realDevice β).idle s.dev = true := decide_eq_true (hr.idle hb)
      cases hst.idle.symm.trans hidle

/-- Some thread is due as long as the request is pending. -/
theorem Sys.Serving.due (h : s.Serving f) (hr : s.Ready) (hf : s.Flow) (hheard : s.Heard)
    (hp : f.pending = some (r, q)) : s.duty.Due s := by
  by_cases hi : s.submit = .idle
  · rw [Sys.duty_idle hi]
    split
    · next hb => exact hb
    · next hb => exact .inr (hheard (h.reported hr hf hp hi (by simpa using hb)))
  · rw [Sys.duty_submitting hi]
    exact hi

/-- The submission goes on. -/
theorem Sys.advances_submit (h : s.submit ≠ .idle) (hs : s.Step l t) : s.Advances t l := by
  cases hs with
  | submit write start env ho hi => exact absurd hi h
  | unsupported start env ho hi => exact absurd hi h
  | built r write start env st hsub hp =>
    exact Sys.advances_left (by rw [hsub]; exact Nat.lt_succ_self _)
  | notBuilt r write start env e hsub hp =>
    exact Sys.advances_left (by rw [hsub]; exact Nat.lt_succ_self _)
  | splice r nodes hsub =>
    exact Sys.advances_left (by rw [hsub]; exact Nat.lt_succ_self _)
  | fail r status hsub =>
    exact Sys.advances_left (by rw [hsub]; exact Nat.lt_succ_self _)
  | ejectReturn hc =>
    exact Sys.advances_submitting h (by simp [Sys.consume, Sys.linkEject]) (by rintro ⟨⟩)
  | ejectWait hc =>
    exact Sys.advances_submitting h (by simp [Sys.linkEject]) (by rintro ⟨⟩)
  | complete node rest st hirq hq hrep =>
    exact Sys.advances_submitting h (by simp [Sys.completed]) (by rintro ⟨⟩)
  | goes a dev ht =>
    refine Sys.advances_submitting h rfl ?_
    cases a <;> rintro ⟨⟩
  | answers a dev node rest st ht hq hex =>
    refine Sys.advances_submitting h rfl ?_
    cases a <;> rintro ⟨⟩
  | _ => exact Sys.advances_submitting h rfl (by rintro ⟨⟩)

/-- The handler goes on, which brings the end nearer if the device rests. -/
theorem Sys.advances_handler (hs : s.submit = .idle) (ht : t.submit = s.submit)
    (hq : t.sec = s.sec) (hdev : t.dev = s.dev) (hl : takenBy l = some .handler)
    (hw : s.dev.sec.aadg.busy = false → handlerRank t.irq < handlerRank s.irq) :
    s.Advances t l := by
  cases hb : s.dev.sec.aadg.busy with
  | true =>
    refine Sys.advances_same hs (ht.trans hs) (by rw [hq]) (by rw [hdev])
      (fun hb' => by cases hb.symm.trans hb') ?_
    rw [Sys.duty_idle hs, if_pos hb]
    intro hdev
    cases hl.symm.trans hdev
  | false =>
    refine Sys.advances_work hs (ht.trans hs) (by rw [hq]) ?_
    simpa [Sys.work, hdev, hb] using hw hb

/-- An EJECT ioctl queues its command behind the request. -/
theorem Sys.linkEject_behind (h : s.sec.cmdQueue ≠ []) :
    s.linkEject.sec.cmdQueue = s.sec.cmdQueue ++ [ioctlNode s.nextCall] ∧
    s.linkEject.dev = s.dev ∧ s.linkEject.irq = s.irq ∧ s.linkEject.submit = s.submit := by
  obtain ⟨n, rest, hq⟩ := List.exists_cons_of_ne_nil h
  have hq' : ({ s with
      nextCall := s.nextCall + 1
      sec := { s.sec with ejectionCmds := s.sec.ejectionCmds + 1 } } :
        Sys (realDevice β)).sec.cmdQueue = n :: rest := hq
  unfold Sys.linkEject
  rw [Sys.link_of_ne_nil hq']
  exact ⟨rfl, rfl, rfl, rfl⟩

/-- **One step.** The end of the request comes nearer, unless the thread whose turn it is
waits. -/
theorem progress_step (h : s.Serving f) (hr : s.Ready) (hf : s.Flow) (hp : f.pending = some (r, q))
    (hserve : t.Serving f') {p : Nat × Request} (hp' : f'.pending = some p) (hs : s.Step l t)
    (hl : ∀ level, l ≠ .otherLine level) : s.Advances t l := by
  by_cases hi : s.submit = .idle
  swap
  · exact Sys.advances_submit hi hs
  have hahead := h.ahead_ne_zero hp hi
  have hne : s.sec.cmdQueue ≠ [] := fun h0 => hahead (by rw [h0]; rfl)
  have hbit := h.reported hr hf hp hi
  obtain ⟨hlq, hld, hli, hls⟩ := Sys.linkEject_behind hne
  cases hs with
  | submit write start env ho hsub => cases ho.symm.trans (h.outstanding_eq.trans (congrArg _ hp))
  | unsupported start env ho hsub => cases ho.symm.trans (h.outstanding_eq.trans (congrArg _ hp))
  | built r' write start env st hsub hp => cases hi.symm.trans hsub
  | notBuilt r' write start env e hsub hp => cases hi.symm.trans hsub
  | splice r' nodes hsub => cases hi.symm.trans hsub
  | fail r' status hsub => cases hi.symm.trans hsub
  | ejectReturn hc =>
    refine Sys.advances_same hi (hls.trans hi) ?_ (congrArg Dev.sec hld) (fun _ => hli) (by rintro ⟨⟩)
    show ahead s.linkEject.sec.cmdQueue = _
    rw [hlq, ahead_snoc]
  | ejectWait hc =>
    refine Sys.advances_same hi (hls.trans hi) ?_ (congrArg Dev.sec hld) (fun _ => hli) (by rintro ⟨⟩)
    show ahead s.linkEject.sec.cmdQueue = _
    rw [hlq, ahead_snoc]
  | snapshot hirq =>
    refine Sys.advances_handler hi rfl rfl rfl rfl fun hb => ?_
    have hor : (s.done || s.error) = true := by simpa using hbit hb
    simp [hirq, handlerRank, hor]
  | readStatus done error hirq =>
    refine Sys.advances_handler hi rfl rfl rfl rfl fun _ => ?_
    cases hor : (done || error) <;> simp [hirq, handlerRank, hor]
  | nothing sn hirq hd he =>
    refine Sys.advances_handler hi rfl rfl rfl rfl fun _ => ?_
    obtain ⟨done, error, status⟩ := sn
    cases hd
    cases he
    cases status <;> simp [hirq, handlerRank]
  | complete node rest st hirq hq hrep =>
    have hi' : (s.completed node rest st).sendHead.submit = .idle := by
      simpa [Sys.completed] using hi
    have hrest : (s.completed node rest st).sendHead.sec.cmdQueue = rest := by
      simpa using (h.complete hr hq hrep).1
    have hlt := ahead_cons node (hrest ▸ hserve.ahead_ne_zero hp' hi')
    refine .inl ?_
    rw [Sys.rank_idle hi, Sys.rank_idle hi', hrest, hq]
    exact Prod.Lex.toLex_lt_toLex.mpr (.inr ⟨rfl, Prod.Lex.toLex_lt_toLex.mpr (.inl hlt)⟩)
  | goes a dev ht =>
    cases a with
    | cpu mem =>
      cases ht
      exact Sys.advances_same hi hi rfl rfl (fun _ => rfl) (by rintro ⟨⟩)
    | io x =>
      obtain ⟨hb, hb', hleft⟩ := Dev.move_left ht
      refine Sys.advances_work hi hi rfl ?_
      simp only [Sys.work, hb, hb', if_true]
      exact Nat.add_lt_add_left hleft 6
  | answers a dev node rest st ht hq hex =>
    obtain ⟨hb, hb', -⟩ := (realDevice β).tick_ends ht
    refine Sys.advances_work hi hi rfl ?_
    have hw : s.work = 6 + s.dev.sec.aaal := if_pos hb
    have hle := handlerRank_le s.irq
    have hw' : ({ s with dev := dev }.answer (some node) st).work = handlerRank s.irq :=
      if_neg (Bool.not_eq_true _ ▸ hb')
    omega
  | otherLine level => exact absurd rfl (hl level)
  | _ =>
    exact Sys.advances_same hi hi rfl rfl (fun _ => rfl) (by rintro ⟨⟩)

end

end Zso.Tape

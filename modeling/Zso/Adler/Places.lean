import Zso.Adler.Driver
import Mathlib.Data.Finset.Card

/-!
# Where the buffers are

A buffer is a token that is always in one place: in `buffers_free`, with one writer
that has just taken it, with one writer that has filled it, or in `buffers_running`.
Every step moves at most one buffer (`Sys.Placed.move`).

* `Sys.BuffersOk`: who a buffer belongs to, and that `pending_buffers` counts the
  buffers of a context.
* `Sys.DeviceOk` ties the device to the head of `buffers_running`.
* `Sys.Ok.step`: every step keeps both, as long as nothing is running across suspend.
* `buffers_conserved`: so without suspend no buffer is lost, and the BUG_ON of the
  interrupt handler is not reached.
-/

namespace Zso.Adler
open Transition

/-! ## Places -/

inductive Place
  | free
  /-- with writer `w`, filled or not -/
  | held (w : Nat) (filled : Bool)
  | running
  deriving DecidableEq

/-- The buffer a writer has. -/
def WritePc.spot : WritePc → Option (Nat × Bool)
  | .holding b => some (b, false)
  | .filled b => some (b, true)
  | _ => none

def Sys.spot (s : Sys) (w : Nat) : Option (Nat × Bool) := (s.writes w).bind fun call => call.pc.spot

/-- Buffer `b` is at a place. -/
def Sys.At (s : Sys) (b : Nat) : Place → Prop
  | .free => b ∈ s.buffersFree
  | .held w filled => s.spot w = some (b, filled)
  | .running => b ∈ s.buffersRunning

/-- `place` says where every buffer is. -/
structure Sys.Placed (s : Sys) (place : Nat → Option Place) : Prop where
  at_iff : ∀ b p, s.At b p ↔ place b = some p
  range : ∀ b, place b = none ↔ ADLERDEV_NUM_BUFFERS ≤ b
  freeNodup : s.buffersFree.Nodup
  runningNodup : s.buffersRunning.Nodup

section
variable {s t : Sys} {place : Nat → Option Place} {b b' w w' : Nat} {p p' : Place}
  {call call' : WriteCall} {co : Option WriteCall}

theorem Sys.Placed.unique (h : s.Placed place) {q : Place} (hp : s.At b p) (hq : s.At b q) :
    p = q :=
  Option.some.inj (((h.at_iff b p).mp hp).symm.trans ((h.at_iff b q).mp hq))

theorem Sys.Placed.lt (h : s.Placed place) (hp : s.At b p) : b < ADLERDEV_NUM_BUFFERS := by
  by_contra hle
  cases ((h.range b).mpr (not_lt.mp hle)).symm.trans ((h.at_iff b p).mp hp)

theorem Sys.Placed.not_free (h : s.Placed place) (hb : s.At b p) (hp : p ≠ .free) :
    b ∉ s.buffersFree :=
  fun hf => hp (h.unique (q := .free) hb hf)

theorem Sys.Placed.not_running (h : s.Placed place) (hb : s.At b p) (hp : p ≠ .running) :
    b ∉ s.buffersRunning :=
  fun hr => hp (h.unique (q := .running) hb hr)

/-- No buffer moves. -/
theorem Sys.Placed.stay (h : s.Placed place) (hspot : ∀ w, t.spot w = s.spot w)
    (hfree : t.buffersFree = s.buffersFree) (hrunning : t.buffersRunning = s.buffersRunning) :
    t.Placed place where
  at_iff b p := by
    rw [← h.at_iff]
    cases p <;> simp only [Sys.At, hspot, hfree, hrunning]
  range := h.range
  freeNodup := hfree ▸ h.freeNodup
  runningNodup := hrunning ▸ h.runningNodup

/-- Buffer `b` goes from `p` to `p'`. -/
theorem Sys.Placed.move (h : s.Placed place) (hb : s.At b p)
    (hself : ∀ q, t.At b q ↔ q = p') (hother : ∀ b' q, b' ≠ b → (t.At b' q ↔ s.At b' q))
    (hfree : t.buffersFree.Nodup) (hrunning : t.buffersRunning.Nodup) :
    t.Placed (Function.update place b (some p')) where
  at_iff b' q := by
    by_cases hb' : b' = b
    · subst hb'
      rw [hself, Function.update_self, Option.some.injEq, eq_comm]
    · rw [hother b' q hb', Function.update_of_ne hb', h.at_iff]
  range b' := by
    by_cases hb' : b' = b
    · subst hb'
      simp [h.lt hb]
    · rw [Function.update_of_ne hb', h.range]
  freeNodup := hfree
  runningNodup := hrunning

theorem Sys.spot_setWrite : (s.setWrite w co).spot w' =
    if w' = w then co.bind fun call => call.pc.spot else s.spot w' := by
  unfold Sys.spot Sys.setWrite
  by_cases h : w' = w
  · simp [h]
  · simp [h]

theorem Sys.spot_eq (hw : s.writes w = some call) : s.spot w = call.pc.spot := by
  simp [Sys.spot, hw]

theorem WritePc.spot_of_waits {pc : WritePc} (h : pc.waits = true) : pc.spot = none := by
  cases pc <;> first | rfl | cases h

/-- Writer `w` gets buffer `b`, or keeps it. -/
theorem Sys.Placed.gain (h : s.Placed place) (hb : s.At b p)
    (hp : ∀ w' f, p = .held w' f → w' = w) (hold : ∀ b' f, s.spot w = some (b', f) → b' = b)
    {f : Bool} (hx : ∀ w', t.spot w' = if w' = w then some (b, f) else s.spot w') :
    (∀ w' f', t.At b (.held w' f') ↔ Place.held w' f' = .held w f) ∧
      ∀ b' w' f', b' ≠ b → (t.At b' (.held w' f') ↔ s.At b' (.held w' f')) := by
  refine ⟨fun w' f' => ?_, fun b' w' f' hne => ?_⟩
  · simp only [Sys.At, hx, Place.held.injEq]
    split
    · next hw => simp [hw, eq_comm]
    · next hw =>
      refine iff_of_false (fun hspot => hw ?_) fun he => hw he.1
      exact hp w' f' (h.unique (q := .held w' f') hb hspot)
  · simp only [Sys.At, hx]
    split
    · next hw =>
      subst hw
      refine iff_of_false (fun he => hne ?_) fun he => hne (hold b' f' he)
      simp only [Option.some.injEq, Prod.mk.injEq] at he
      exact he.1.symm
    · rfl

/-- Writer `w` gives buffer `b` away. -/
theorem Sys.Placed.drop (h : s.Placed place) {f : Bool} (hb : s.spot w = some (b, f))
    (hx : ∀ w', t.spot w' = if w' = w then none else s.spot w') :
    (∀ w' f', ¬ t.At b (.held w' f')) ∧
      ∀ b' w' f', b' ≠ b → (t.At b' (.held w' f') ↔ s.At b' (.held w' f')) := by
  refine ⟨fun w' f' => ?_, fun b' w' f' hne => ?_⟩
  · simp only [Sys.At, hx]
    split
    · simp
    · next hw =>
      intro hspot
      cases h.unique (p := .held w f) (q := .held w' f') hb hspot
      exact hw rfl
  · simp only [Sys.At, hx]
    split
    · next hw =>
      subst hw
      refine iff_of_false (by simp) fun he => hne ?_
      rw [hb] at he
      simp only [Option.some.injEq, Prod.mk.injEq] at he
      exact he.1.symm
    · rfl

/-- A writer takes the head of `buffers_free`. -/
theorem Sys.Placed.take (h : s.Placed place) (hspot : s.spot w = none) {rest : List Nat}
    (hf : s.buffersFree = b :: rest)
    (hx : ∀ w', t.spot w' = if w' = w then some (b, false) else s.spot w')
    (hfree : t.buffersFree = rest) (hrunning : t.buffersRunning = s.buffersRunning) :
    t.Placed (Function.update place b (some (.held w false))) := by
  have hb : s.At b .free := by simp [Sys.At, hf]
  have hnd := h.freeNodup
  rw [hf, List.nodup_cons] at hnd
  obtain ⟨hself, hother⟩ := h.gain hb (by rintro _ _ ⟨⟩)
    (fun b' f he => by rw [hspot] at he; cases he) hx
  refine h.move hb (fun q => ?_) (fun b' q hne => ?_) (hfree ▸ hnd.2) (hrunning ▸ h.runningNodup)
  · cases q with
    | free => simp [Sys.At, hfree, hnd.1]
    | running => simp [Sys.At, hrunning, h.not_running hb]
    | held w' f => exact hself w' f
  · cases q with
    | free => simp [Sys.At, hfree, hf, hne]
    | running => simp [Sys.At, hrunning]
    | held w' f => exact hother b' w' f hne

/-- A writer fills its buffer. -/
theorem Sys.Placed.copy (h : s.Placed place) (hspot : s.spot w = some (b, false))
    (hx : ∀ w', t.spot w' = if w' = w then some (b, true) else s.spot w')
    (hfree : t.buffersFree = s.buffersFree) (hrunning : t.buffersRunning = s.buffersRunning) :
    t.Placed (Function.update place b (some (.held w true))) := by
  have hb : s.At b (.held w false) := hspot
  obtain ⟨hself, hother⟩ := h.gain hb (fun w' f he => by cases he; rfl)
    (fun b' f he => by rw [hspot] at he; cases he; rfl) hx
  refine h.move hb (fun q => ?_) (fun b' q hne => ?_) (hfree ▸ h.freeNodup)
    (hrunning ▸ h.runningNodup)
  · cases q with
    | free => simp [Sys.At, hfree, h.not_free hb]
    | running => simp [Sys.At, hrunning, h.not_running hb]
    | held w' f => exact hself w' f
  · cases q with
    | free => simp [Sys.At, hfree]
    | running => simp [Sys.At, hrunning]
    | held w' f => exact hother b' w' f hne

/-- A writer puts its buffer back. -/
theorem Sys.Placed.fault (h : s.Placed place) {f : Bool} (hspot : s.spot w = some (b, f))
    (hx : ∀ w', t.spot w' = if w' = w then none else s.spot w')
    (hfree : t.buffersFree = b :: s.buffersFree)
    (hrunning : t.buffersRunning = s.buffersRunning) :
    t.Placed (Function.update place b (some .free)) := by
  have hb : s.At b (.held w f) := hspot
  obtain ⟨hself, hother⟩ := h.drop hspot hx
  have hnot := h.not_free hb (by simp)
  refine h.move hb (fun q => ?_) (fun b' q hne => ?_)
    (hfree ▸ List.nodup_cons.mpr ⟨hnot, h.freeNodup⟩) (hrunning ▸ h.runningNodup)
  · cases q with
    | free => simp [Sys.At, hfree]
    | running => simp [Sys.At, hrunning, h.not_running hb]
    | held w' f => exact iff_of_false (hself w' f) (by simp)
  · cases q with
    | free => simp [Sys.At, hfree, hne]
    | running => simp [Sys.At, hrunning]
    | held w' f => exact hother b' w' f hne

/-- A writer queues its buffer. -/
theorem Sys.Placed.submit (h : s.Placed place) {f : Bool} (hspot : s.spot w = some (b, f))
    (hx : ∀ w', t.spot w' = if w' = w then none else s.spot w')
    (hfree : t.buffersFree = s.buffersFree)
    (hrunning : t.buffersRunning = s.buffersRunning ++ [b]) :
    t.Placed (Function.update place b (some .running)) := by
  have hb : s.At b (.held w f) := hspot
  obtain ⟨hself, hother⟩ := h.drop hspot hx
  have hnot := h.not_running hb (by simp)
  refine h.move hb (fun q => ?_) (fun b' q hne => ?_) (hfree ▸ h.freeNodup) ?_
  · cases q with
    | free => simp [Sys.At, hfree, h.not_free hb]
    | running => simp [Sys.At, hrunning]
    | held w' f => exact iff_of_false (hself w' f) (by simp)
  · cases q with
    | free => simp [Sys.At, hfree]
    | running => simp [Sys.At, hrunning, hne]
    | held w' f => exact hother b' w' f hne
  · rw [hrunning, ← List.concat_eq_append]
    exact h.runningNodup.concat hnot

/-- The head of `buffers_running` goes back. -/
theorem Sys.Placed.retire (h : s.Placed place) {rest : List Nat}
    (hr : s.buffersRunning = b :: rest) (hx : ∀ w', t.spot w' = s.spot w')
    (hfree : t.buffersFree = b :: s.buffersFree) (hrunning : t.buffersRunning = rest) :
    t.Placed (Function.update place b (some .free)) := by
  have hb : s.At b .running := by simp [Sys.At, hr]
  have hnd := h.runningNodup
  rw [hr, List.nodup_cons] at hnd
  have hnot := h.not_free hb (by simp)
  refine h.move hb (fun q => ?_) (fun b' q hne => ?_)
    (hfree ▸ List.nodup_cons.mpr ⟨hnot, h.freeNodup⟩) (hrunning ▸ hnd.2)
  · cases q with
    | free => simp [Sys.At, hfree]
    | running => simp [Sys.At, hrunning, hnd.1]
    | held w' f =>
      refine iff_of_false (fun he => ?_) (by simp)
      rw [Sys.At, hx] at he
      cases h.unique (p := .held w' f) he hb
  · cases q with
    | free => simp [Sys.At, hfree, hne]
    | running => simp [Sys.At, hrunning, hr, hne]
    | held w' f => simp [Sys.At, hx]

end

/-! ## Contexts and calls -/

/-- The buffers that refer to a context. -/
def Sys.owned (s : Sys) (c : Nat) : Finset Nat :=
  (Finset.range ADLERDEV_NUM_BUFFERS).filter fun b => (s.buffer b).ctx = some c

/-- A buffer has a context exactly when it has data. -/
def Sys.Belongs (s : Sys) (b : Nat) : Place → Prop
  | .free => (s.buffer b).ctx = none
  | .held _ false => (s.buffer b).ctx = none
  | .held w true => ∃ call, s.writes w = some call ∧ (s.buffer b).ctx = some call.ctx ∧
      0 < (s.buffer b).fillSize
  | .running => (∃ c, (s.buffer b).ctx = some c) ∧ 0 < (s.buffer b).fillSize

structure Sys.BuffersOk (s : Sys) : Prop where
  placed : ∃ place, s.Placed place
  belongs : ∀ b p, s.At b p → s.Belongs b p
  outside : ∀ b, ADLERDEV_NUM_BUFFERS ≤ b → (s.buffer b).ctx = none
  /-- what is referred to has not been freed -/
  live : ∀ b c, (s.buffer b).ctx = some c → (s.context c).isSome = true
  pending : ∀ c ctx, s.context c = some ctx → ctx.pendingBuffers = (s.owned c).card

def WriteCall.Ended (call : WriteCall) : Prop := ∃ ret, call.pc = .returned ret

/-- A call of write that has not ended has a context, and data left. -/
structure Sys.CallsOk (s : Sys) : Prop where
  live : ∀ w call, s.writes w = some call → (s.context call.ctx).isSome = true
  data : ∀ w call, s.writes w = some call → call.Ended ∨ call.buf ≠ []

/-- The device works on the head of `buffers_running`, or has just finished it. -/
structure Sys.DeviceOk (s : Sys) : Prop where
  idle : s.buffersRunning = [] → s.dev.dataSize = 0 ∧ s.dev.intr = false
  busy : ∀ b rest, s.buffersRunning = b :: rest → s.dev.dataPtr = b ∧
    (s.dev.dataSize = (s.buffer b).fillSize ∧ s.dev.intr = false ∨
      s.dev.dataSize = 0 ∧ s.dev.intr = true)

/-- Suspend has not been called, or is in its loop. -/
def PowerPc.awake : PowerPc → Bool
  | .on | .test | .retest | .asleep => true
  | .mask | .suspended | .resuming => false

structure Sys.Ok (s : Sys) : Prop where
  buffers : s.BuffersOk
  calls : s.CallsOk
  device : s.DeviceOk
  calm : s.power.awake = false → s.buffersRunning = []
  enabled : s.power.awake = true → s.dev.intrEnable = true

/-- Nothing runs when suspend leaves its loop, and nothing is queued from then on until resume is
done. -/
def QuietSuspend (s : Sys) : Label → Prop
  | .power => s.power = .test → s.buffersFree ≠ [] → s.buffersRunning = []
  | .writeStep _ .submit => s.power.awake = true
  | l => ReleasedLast s l

def NoSuspend (s : Sys) (l : Label) : Prop := ReleasedLast s l ∧ l ≠ .power

/-- Buffer `b` has data that is not in the sum yet. -/
def Sys.Filled (s : Sys) (b : Nat) : Prop := s.At b .running ∨ ∃ w, s.At b (.held w true)

section
variable {s t u : Sys} {b c w : Nat} {call : WriteCall} {co : Option WriteCall} {ctx : Context}
  {place : Nat → Option Place} {p : Place} {l : Label}

theorem Sys.writes_setWrite (w' : Nat) : (s.setWrite w co).writes w' =
    if w' = w then co else s.writes w' := by
  simp [Sys.setWrite, Function.update_apply]

theorem Sys.setWrite_cases {w' : Nat} {call' : WriteCall}
    (h : (s.setWrite w co).writes w' = some call') :
    w' = w ∧ co = some call' ∨ w' ≠ w ∧ s.writes w' = some call' := by
  rw [Sys.writes_setWrite] at h
  split at h
  · next hw => exact .inl ⟨hw, h⟩
  · next hw => exact .inr ⟨hw, h⟩

/-! ### Calls -/

/-- A call goes on, or starts, or ends. -/
theorem Sys.CallsOk.setWrite (h : s.CallsOk) (ht : t.writes = Function.update s.writes w co)
    (hctx : ∀ c, (s.context c).isSome = true → (t.context c).isSome = true)
    (hco : ∀ call, co = some call → (t.context call.ctx).isSome = true ∧
      (call.Ended ∨ call.buf ≠ [])) : t.CallsOk where
  live w' call' hw' := by
    rw [ht] at hw'
    rcases Sys.setWrite_cases hw' with ⟨-, he⟩ | ⟨-, he⟩
    · exact (hco call' he).1
    · exact hctx _ (h.live w' call' he)
  data w' call' hw' := by
    rw [ht] at hw'
    rcases Sys.setWrite_cases hw' with ⟨-, he⟩ | ⟨-, he⟩
    · exact (hco call' he).2
    · exact h.data w' call' he

theorem Sys.CallsOk.data_left (h : s.CallsOk) (hw : s.writes w = some call)
    (hpc : ∀ ret, call.pc ≠ .returned ret) : call.buf ≠ [] :=
  (h.data w call hw).resolve_left fun he => he.elim hpc

/-- A call that is under way goes on. -/
theorem Sys.CallsOk.goOn (h : s.CallsOk) (hw : s.writes w = some call) {call' : WriteCall}
    (ht : t.writes = Function.update s.writes w (some call'))
    (hctx : ∀ c, (s.context c).isSome = true → (t.context c).isSome = true)
    (hc : call'.ctx = call.ctx)
    (hdata : call.Ended ∨ call.buf ≠ [] → call'.Ended ∨ call'.buf ≠ []) : t.CallsOk := by
  refine h.setWrite ht hctx fun call'' he => ?_
  cases he
  exact ⟨hc ▸ hctx _ (h.live w call hw), hdata (h.data w call hw)⟩

theorem WriteCall.loop_ended_or (call : WriteCall) : call.loop.Ended ∨ call.loop.buf ≠ [] := by
  unfold WriteCall.loop
  by_cases hb : call.buf = []
  · exact .inl ⟨call.res, by simp [hb]⟩
  · exact .inr hb

theorem WriteCall.loop_spot (call : WriteCall) : call.loop.pc.spot = none := by
  unfold WriteCall.loop
  dsimp only
  split <;> rfl

/-! ### Buffers -/

theorem Sys.Placed.other (h : s.Placed place)
    (h' : t.Placed (Function.update place b (some p))) {b' : Nat} (hne : b' ≠ b) (q : Place) :
    t.At b' q ↔ s.At b' q := by
  rw [h'.at_iff, Function.update_of_ne hne, h.at_iff]

theorem Sys.Belongs.congr {q : Place} (h : s.Belongs b q) (hb : t.buffer b = s.buffer b)
    (hwrites : ∀ w call, q = .held w true → s.writes w = some call →
      ∃ call', t.writes w = some call' ∧ call'.ctx = call.ctx) : t.Belongs b q := by
  match q with
  | .free => exact (congrArg Buffer.ctx hb).trans h
  | .held w false => exact (congrArg Buffer.ctx hb).trans h
  | .held w true =>
    obtain ⟨call, hw, hctx, hfill⟩ := h
    obtain ⟨call', hw', he⟩ := hwrites w call rfl hw
    exact ⟨call', hw', by rw [hb, hctx, he], by rw [hb]; exact hfill⟩
  | .running => exact ⟨by rw [hb]; exact h.1, by rw [hb]; exact h.2⟩

/-- Buffer `b` has moved to `p`, and belongs there. -/
theorem Sys.BuffersOk.belongs_move (h : s.BuffersOk) (hp : s.Placed place)
    (hp' : t.Placed (Function.update place b (some p)))
    (hbuf : ∀ b', b' ≠ b → t.buffer b' = s.buffer b')
    (hwrites : ∀ w call b', b' ≠ b → s.writes w = some call → s.spot w = some (b', true) →
      ∃ call', t.writes w = some call' ∧ call'.ctx = call.ctx)
    (hself : t.Belongs b p) : ∀ b' q, t.At b' q → t.Belongs b' q := by
  intro b' q hat
  by_cases hne : b' = b
  · subst hne
    rw [hp'.at_iff, Function.update_self, Option.some.injEq] at hat
    exact hat ▸ hself
  · rw [hp.other hp' hne] at hat
    refine (h.belongs b' q hat).congr (hbuf b' hne) fun w call he hw => ?_
    subst he
    exact hwrites w call b' hne hw hat

/-- Nothing about the buffers changes. -/
theorem Sys.BuffersOk.stay (h : s.BuffersOk) (hspot : ∀ w, t.spot w = s.spot w)
    (hfree : t.buffersFree = s.buffersFree) (hrunning : t.buffersRunning = s.buffersRunning)
    (hbuf : t.buffer = s.buffer)
    (hwrites : ∀ w call b', s.writes w = some call → s.spot w = some (b', true) →
      ∃ call', t.writes w = some call' ∧ call'.ctx = call.ctx)
    (hlive : ∀ b c, (s.buffer b).ctx = some c → (t.context c).isSome = true)
    (hpending : ∀ c ctx, t.context c = some ctx → ctx.pendingBuffers = (s.owned c).card) :
    t.BuffersOk := by
  obtain ⟨place, hp⟩ := h.placed
  have hp' := hp.stay hspot hfree hrunning
  refine ⟨⟨place, hp'⟩, fun b q hat => ?_, fun b hb => hbuf ▸ h.outside b hb,
    fun b c hb => hlive b c (hbuf ▸ hb), fun c ctx hc => ?_⟩
  · have hat' : s.At b q := (hp.at_iff b q).mpr ((hp'.at_iff b q).mp hat)
    refine (h.belongs b q hat').congr (by rw [hbuf]) fun w call he hw => ?_
    subst he
    exact hwrites w call b hw hat'
  · rw [hpending c ctx hc]
    simp only [Sys.owned, hbuf]

/-- Only the device, the reads or the power state change. -/
theorem Sys.BuffersOk.same (h : s.BuffersOk) (hwrites : t.writes = s.writes)
    (hfree : t.buffersFree = s.buffersFree) (hrunning : t.buffersRunning = s.buffersRunning)
    (hbuf : t.buffer = s.buffer) (hctx : t.context = s.context) : t.BuffersOk :=
  h.stay (fun w => by rw [Sys.spot, Sys.spot, hwrites]) hfree hrunning hbuf
    (fun w call _ hw _ => ⟨call, hwrites ▸ hw, rfl⟩) (hctx ▸ h.live) (hctx ▸ h.pending)

/-- A buffer gets a context. Read backwards, a buffer loses it. -/
theorem Sys.owned_insert (hlt : b < ADLERDEV_NUM_BUFFERS)
    (hother : ∀ b', b' ≠ b → (t.buffer b').ctx = (s.buffer b').ctx)
    (hold : (s.buffer b).ctx = none) (hnew : (t.buffer b).ctx = some c) :
    (t.owned c).card = (s.owned c).card + 1 ∧ ∀ c', c' ≠ c → t.owned c' = s.owned c' := by
  constructor
  · have hins : t.owned c = insert b (s.owned c) := by
      ext b'
      by_cases hb : b' = b
      · subst hb
        simp [Sys.owned, hnew, hlt]
      · simp [Sys.owned, hother b' hb, hb]
    have hnot : b ∉ s.owned c := by simp [Sys.owned, hold]
    rw [hins, Finset.card_insert_of_notMem hnot]
  · intro c' hne
    ext b'
    by_cases hb : b' = b
    · subst hb
      simp [Sys.owned, hnew, hold, hne.symm]
    · simp [Sys.owned, hother b' hb]

/-- A writer without a buffer goes on without one. -/
theorem Sys.BuffersOk.setWrite (h : s.BuffersOk) (hold : s.spot w = none)
    (hnew : (co.bind fun call => call.pc.spot) = none) : (s.setWrite w co).BuffersOk := by
  refine h.stay (fun w' => ?_) rfl rfl rfl (fun w' call b' hw' hspot => ?_) h.live h.pending
  · rw [Sys.spot_setWrite]
    split
    · next hw => rw [hw, hold, hnew]
    · rfl
  · refine ⟨call, ?_, rfl⟩
    rw [Sys.writes_setWrite, if_neg, hw']
    rintro rfl
    rw [hold] at hspot
    cases hspot

/-- The writers that have another buffer than `b`. -/
theorem Sys.writes_other {b' w' : Nat} (hold : ∀ b' f, s.spot w = some (b', f) → b' = b)
    (hwrites : u.writes = s.writes) (hne : b' ≠ b) (hw' : s.writes w' = some call)
    (hspot : s.spot w' = some (b', true)) :
    ∃ call', (u.setWrite w co).writes w' = some call' ∧ call'.ctx = call.ctx := by
  refine ⟨call, ?_, rfl⟩
  rw [Sys.writes_setWrite, if_neg, hwrites, hw']
  rintro rfl
  exact hne (hold b' true hspot)

/-- A writer takes a buffer. -/
theorem Sys.BuffersOk.take (h : s.BuffersOk) (hw : s.writes w = some call)
    (hpc : call.pc = .test) {rest : List Nat} (hf : s.buffersFree = b :: rest) :
    Sys.BuffersOk
      ({ s with buffersFree := rest }.setWrite w (some { call with pc := .holding b })) := by
  have hspot : s.spot w = none := by rw [Sys.spot_eq hw, hpc]; rfl
  obtain ⟨place, hp⟩ := h.placed
  have hp' := hp.take (t := { s with buffersFree := rest }.setWrite w
    (some { call with pc := .holding b })) hspot hf (fun _ => Sys.spot_setWrite) rfl rfl
  refine ⟨⟨_, hp'⟩, h.belongs_move hp hp' (fun _ _ => rfl)
    (fun w' call' b' => Sys.writes_other (by simp [hspot]) rfl) ?_, h.outside, h.live, h.pending⟩
  exact h.belongs b .free (by simp [Sys.At, hf])

/-- A writer fills its buffer. -/
theorem Sys.BuffersOk.fill (h : s.BuffersOk) (hw : s.writes w = some call)
    (hpc : call.pc = .holding b) (hbuf : call.buf ≠ []) (hc : s.context call.ctx = some ctx) :
    (s.fill w call b ctx).BuffersOk := by
  have hspot : s.spot w = some (b, false) := by rw [Sys.spot_eq hw, hpc]; rfl
  have hold : (s.buffer b).ctx = none := h.belongs b (.held w false) hspot
  obtain ⟨place, hp⟩ := h.placed
  have hp' := hp.copy (t := s.fill w call b ctx) hspot (fun _ => Sys.spot_setWrite) rfl rfl
  have hother : ∀ b', b' ≠ b → (s.fill w call b ctx).buffer b' = s.buffer b' := fun b' hne =>
    Function.update_of_ne hne _ _
  have hself : (s.fill w call b ctx).buffer b = _ := Function.update_self ..
  have hlt := hp.lt (p := .held w false) hspot
  obtain ⟨hcard, hsame⟩ := Sys.owned_insert (t := s.fill w call b ctx) (c := call.ctx) hlt
    (fun b' hne => by rw [hother b' hne]) hold (by rw [hself])
  refine ⟨⟨_, hp'⟩, h.belongs_move hp hp' hother
    (fun w' call' b' => Sys.writes_other (by simp [hspot]) rfl) ?_, fun b' hle => ?_,
    fun b' c' hb => ?_, fun c' ctx' hc' => ?_⟩
  · refine ⟨{ call with pc := .filled b }, by simp [Sys.fill, Sys.setWrite], by rw [hself], ?_⟩
    rw [hself]
    exact List.length_pos_iff.mpr (by simp [WriteCall.chunk, hbuf, PAGE_SIZE])
  · rw [hother b' (by rintro rfl; omega)]
    exact h.outside b' hle
  · show ((Function.update s.context call.ctx _) c').isSome = true
    by_cases hcc : c' = call.ctx
    · simp [hcc]
    · rw [Function.update_of_ne hcc]
      by_cases hb' : b' = b
      · subst hb'
        rw [hself] at hb
        cases hb
        exact absurd rfl hcc
      · exact h.live b' c' (hother b' hb' ▸ hb)
  · have hc'' : (Function.update s.context call.ctx _) c' = some ctx' := hc'
    by_cases hcc : c' = call.ctx
    · subst hcc
      rw [Function.update_self] at hc''
      cases hc''
      rw [hcard]
      have := h.pending call.ctx ctx hc
      simp only
      omega
    · rw [Function.update_of_ne hcc] at hc''
      rw [hsame c' hcc]
      exact h.pending c' ctx' hc''

/-- A writer puts its buffer back. -/
theorem Sys.BuffersOk.fault (h : s.BuffersOk) (hw : s.writes w = some call)
    (hpc : call.pc = .holding b) (garbage : List UInt8) (err : Int) :
    Sys.BuffersOk ({ s.setBuffer b { s.buffer b with dataCpu := garbage } with
      buffersFree := b :: s.buffersFree }.setWrite w (some (call.cutShort err))) := by
  have hspot : s.spot w = some (b, false) := by rw [Sys.spot_eq hw, hpc]; rfl
  obtain ⟨place, hp⟩ := h.placed
  have hp' := hp.fault (t := { s.setBuffer b { s.buffer b with dataCpu := garbage } with
      buffersFree := b :: s.buffersFree }.setWrite w (some (call.cutShort err))) hspot
    (fun _ => Sys.spot_setWrite) rfl rfl
  have hctx : ∀ b', ((s.setBuffer b { s.buffer b with dataCpu := garbage }).buffer b').ctx =
      (s.buffer b').ctx := by
    intro b'
    by_cases hb' : b' = b <;> simp [Sys.setBuffer, hb']
  refine ⟨⟨_, hp'⟩, h.belongs_move hp hp' (fun b' hne => Function.update_of_ne hne _ _)
    (fun w' call' b' => Sys.writes_other (by simp [hspot]) rfl) ?_,
    fun b' hle => (hctx b').trans (h.outside b' hle),
    fun b' c hb => h.live b' c ((hctx b').symm.trans hb), fun c ctx hc => ?_⟩
  · exact (hctx b).trans (h.belongs b (.held w false) hspot)
  · rw [h.pending c ctx hc]
    have : ∀ b', (({ s.setBuffer b { s.buffer b with dataCpu := garbage } with
      buffersFree := b :: s.buffersFree }.setWrite w (some (call.cutShort err))).buffer b').ctx =
      (s.buffer b').ctx := hctx
    simp only [Sys.owned, this]

/-- A writer queues its buffer. -/
theorem Sys.BuffersOk.queued (h : s.BuffersOk) (hw : s.writes w = some call)
    (hpc : call.pc = .filled b) : (s.queued w call b).BuffersOk := by
  have hspot : s.spot w = some (b, true) := by rw [Sys.spot_eq hw, hpc]; rfl
  obtain ⟨place, hp⟩ := h.placed
  have hp' := hp.submit (t := s.queued w call b) hspot
    (fun w' => by
      rw [Sys.queued, Sys.spot_setWrite]
      simp only [Option.bind_some, WriteCall.loop_spot]
      rfl) rfl rfl
  refine ⟨⟨_, hp'⟩, h.belongs_move hp hp' (fun _ _ => rfl)
    (fun w' call' b' => Sys.writes_other (by simp [hspot]) rfl) ?_, h.outside, h.live, h.pending⟩
  obtain ⟨call', -, hctx, hfill⟩ := h.belongs b (.held w true) hspot
  exact ⟨⟨call'.ctx, hctx⟩, hfill⟩

theorem Sys.spot_wakeFree (w : Nat) : s.wakeFree.spot w = s.spot w := by
  simp only [Sys.spot, Sys.wakeFree, Option.bind_map]
  congr 1
  funext call
  show call.pc.wake.spot = call.pc.spot
  cases call.pc <;> rfl

theorem Sys.wakeFree_cases {call' : WriteCall} (h : s.wakeFree.writes w = some call') :
    ∃ call, s.writes w = some call ∧ call' = { call with pc := call.pc.wake } := by
  obtain ⟨call, hw, he⟩ := Option.map_eq_some_iff.mp h
  exact ⟨call, hw, he.symm⟩

/-- The head of `buffers_running` goes back. -/
theorem Sys.BuffersOk.retired (h : s.BuffersOk) {rest : List Nat}
    (hr : s.buffersRunning = b :: rest) (hb : (s.buffer b).ctx = some c)
    (hc : s.context c = some ctx) : (s.retired b rest c ctx).BuffersOk := by
  obtain ⟨place, hp⟩ := h.placed
  have hp' := hp.retire (t := s.retired b rest c ctx) hr (fun _ => Sys.spot_wakeFree _) rfl rfl
  have hother : ∀ b', b' ≠ b → (s.retired b rest c ctx).buffer b' = s.buffer b' := fun b' hne =>
    Function.update_of_ne hne _ _
  have hself : ((s.retired b rest c ctx).buffer b).ctx = none := by
    simp [Sys.retired, Sys.setBuffer, Sys.wakeFree]
  have hlt := hp.lt (p := .running) (show b ∈ s.buffersRunning by rw [hr]; exact List.mem_cons_self)
  obtain ⟨hcard, hsame⟩ := Sys.owned_insert (s := s.retired b rest c ctx) (t := s) hlt
    (fun b' hne => by rw [hother b' hne]) hself hb
  refine ⟨⟨_, hp'⟩, h.belongs_move hp hp' hother (fun w' call' b' _ hw' _ => ?_) hself,
    fun b' hle => ?_, fun b' c' hb' => ?_, fun c' ctx' hc' => ?_⟩
  · exact ⟨{ call' with pc := call'.pc.wake },
      by simp [Sys.retired, Sys.wakeFree, Sys.setBuffer, Sys.setContext, hw'], rfl⟩
  · rw [hother b' (by rintro rfl; omega)]
    exact h.outside b' hle
  · have hne : b' ≠ b := by
      rintro rfl
      rw [hself] at hb'
      cases hb'
    show ((Function.update s.context c _) c').isSome = true
    by_cases hcc : c' = c
    · simp [hcc]
    · rw [Function.update_of_ne hcc]
      exact h.live b' c' (hother b' hne ▸ hb')
  · have hc'' : (Function.update s.context c _) c' = some ctx' := hc'
    by_cases hcc : c' = c
    · subst hcc
      rw [Function.update_self] at hc''
      cases hc''
      have := h.pending c' ctx hc
      simp only
      omega
    · rw [Function.update_of_ne hcc] at hc''
      rw [← hsame c' hcc]
      exact h.pending c' ctx' hc''

/-- A file is opened: no buffer refers to its context. -/
theorem Sys.BuffersOk.openFile (h : s.BuffersOk) (hc : s.context c = none) :
    (s.setContext c (some ⟨0, ADLERDEV_SUM_INIT⟩)).BuffersOk := by
  have hnone : ∀ b, (s.buffer b).ctx ≠ some c := by
    intro b hb
    have := h.live b c hb
    simp [hc] at this
  refine h.stay (fun _ => rfl) rfl rfl rfl (fun w call _ hw _ => ⟨call, hw, rfl⟩)
    (fun b c' hb => ?_) (fun c' ctx' hc' => ?_)
  · show ((Function.update s.context c _) c').isSome = true
    rw [Function.update_of_ne (by rintro rfl; exact hnone b hb)]
    exact h.live b c' hb
  · have hc'' : (Function.update s.context c _) c' = some ctx' := hc'
    by_cases hcc : c' = c
    · subst hcc
      rw [Function.update_self] at hc''
      cases hc''
      simp [Sys.owned, hnone]
    · rw [Function.update_of_ne hcc] at hc''
      exact h.pending c' ctx' hc''

/-- Without pending buffers no buffer refers to the context. -/
theorem Sys.BuffersOk.none_refers (h : s.BuffersOk) (hc : s.context c = some ctx)
    (hp : ctx.pendingBuffers = 0) (b : Nat) : (s.buffer b).ctx ≠ some c := by
  intro hb
  have hcard : s.owned c = ∅ := by
    have := h.pending c ctx hc
    exact Finset.card_eq_zero.mp (by omega)
  have hlt : b < ADLERDEV_NUM_BUFFERS := by
    by_contra hle
    rw [h.outside b (not_lt.mp hle)] at hb
    cases hb
  have hmem : b ∈ s.owned c := by simp [Sys.owned, hb, hlt]
  simp [hcard] at hmem

/-- A context is freed. -/
theorem Sys.BuffersOk.release (h : s.BuffersOk) (hc : s.context c = some ctx)
    (hp : ctx.pendingBuffers = 0) : (s.setContext c none).BuffersOk := by
  refine h.stay (fun _ => rfl) rfl rfl rfl (fun w call _ hw _ => ⟨call, hw, rfl⟩)
    (fun b c' hb => ?_) (fun c' ctx' hc' => ?_)
  · show ((Function.update s.context c none) c').isSome = true
    rw [Function.update_of_ne (by rintro rfl; exact h.none_refers hc hp b hb)]
    exact h.live b c' hb
  · have hc'' : (Function.update s.context c none) c' = some ctx' := hc'
    by_cases hcc : c' = c
    · simp [hcc] at hc''
    · rw [Function.update_of_ne hcc] at hc''
      exact h.pending c' ctx' hc''

/-! ### The device -/

theorem Sys.DeviceOk.congr (h : s.DeviceOk) (hdev : t.dev = s.dev)
    (hrunning : t.buffersRunning = s.buffersRunning)
    (hbuf : ∀ b, s.At b .running → (t.buffer b).fillSize = (s.buffer b).fillSize) :
    t.DeviceOk where
  idle hr := hdev ▸ h.idle (hrunning ▸ hr)
  busy b rest hr := by
    rw [hrunning] at hr
    rw [hdev, hbuf b (by simp [Sys.At, hr])]
    exact h.busy b rest hr

/-- A buffer is started. -/
theorem Sys.DeviceOk.begin {rest : List Nat} (hr : t.buffersRunning = b :: rest)
    (hdev : t.dev = u.dev.begin b (t.buffer b) ctx) (hi : u.dev.intr = false) : t.DeviceOk where
  idle he := by simp [hr] at he
  busy b' rest' he := by
    rw [hr] at he
    cases he
    rw [hdev]
    exact ⟨rfl, .inl ⟨rfl, hi⟩⟩

/-- When the interrupt is raised, the device has finished the head of `buffers_running`. -/
theorem Sys.DeviceOk.finished (h : s.DeviceOk) (hi : s.dev.intr = true) :
    s.buffersRunning ≠ [] ∧ s.dev.dataSize = 0 := by
  cases hr : s.buffersRunning with
  | nil => simp [h.idle hr] at hi
  | cons b rest =>
    obtain ⟨-, ⟨-, hn⟩ | ⟨hd, -⟩⟩ := h.busy b rest hr
    · simp [hi] at hn
    · exact ⟨List.cons_ne_nil b rest, hd⟩

/-! ### All together -/

theorem Sys.Ok.submit (h : s.Ok) (hon : s.power.awake = true) (hw : s.writes w = some call)
    (hpc : call.pc = .filled b) (hrunning : s.buffersRunning ≠ []) : (s.queued w call b).Ok where
  buffers := h.buffers.queued hw hpc
  calls := h.calls.goOn hw rfl (fun _ => id) rfl fun _ => WriteCall.loop_ended_or _
  device := by
    refine ⟨fun he => ?_, fun b' rest he => ?_⟩
    · simp [Sys.queued, Sys.setWrite] at he
    · cases hr : s.buffersRunning with
      | nil => exact absurd hr hrunning
      | cons b'' rest' =>
        have he' : s.buffersRunning ++ [b] = b' :: rest := he
        rw [hr] at he'
        cases he'
        exact h.device.busy b' rest' hr
  calm hp := by cases hon.symm.trans hp
  enabled := h.enabled

theorem Sys.Ok.submitFirst (h : s.Ok) (hon : s.power.awake = true) (hw : s.writes w = some call)
    (hpc : call.pc = .filled b) (hrunning : s.buffersRunning = []) (ctx : Context) :
    ({ s with dev := s.dev.begin b (s.buffer b) ctx }.queued w call b).Ok where
  buffers := by
    have h' : Sys.BuffersOk { s with dev := s.dev.begin b (s.buffer b) ctx } :=
      h.buffers.same rfl rfl rfl rfl rfl
    exact h'.queued hw hpc
  calls := h.calls.goOn hw rfl (fun _ => id) rfl fun _ => WriteCall.loop_ended_or _
  device := by
    have hr : s.buffersRunning ++ [b] = b :: [] := by simp [hrunning]
    exact Sys.DeviceOk.begin (u := s) hr rfl (h.device.idle hrunning).2
  calm hp := by cases hon.symm.trans hp
  enabled := h.enabled

theorem Sys.CallsOk.retired (h : s.CallsOk) (b : Nat) (rest : List Nat) (c : Nat)
    (ctx : Context) : (s.retired b rest c ctx).CallsOk where
  live w call hw := by
    obtain ⟨call', hw', rfl⟩ := Sys.wakeFree_cases hw
    show ((Function.update s.context c _) call'.ctx).isSome = true
    by_cases hcc : call'.ctx = c
    · simp [hcc]
    · rw [Function.update_of_ne hcc]
      exact h.live w call' hw'
  data w call hw := by
    obtain ⟨call', hw', rfl⟩ := Sys.wakeFree_cases hw
    refine (h.data w call' hw').imp_left ?_
    rintro ⟨ret, he⟩
    exact ⟨ret, by simp [he, WritePc.wake]⟩

theorem Sys.wakeIdle_awake (s : Sys) : s.wakeIdle.power.awake = s.power.awake := by
  unfold Sys.wakeIdle
  dsimp only
  split
  · next hp => rw [hp]; rfl
  · rfl

theorem Sys.Step.power_on (hs : s.Step l t) (hon : s.power = .on) (hl : l ≠ .power) :
    t.power = .on := by
  cases hs with
  | isrLast b c ctx hi hr hb hc =>
    have h : (s.retired b [] c ctx).power = .on := hon
    simp [Sys.wakeIdle, h]
  | power => exact absurd rfl hl
  | _ => exact hon

theorem Sys.Ok.isrLast (h : s.Ok) (hi : s.dev.intr = true) (hr : s.buffersRunning = [b])
    (hb : (s.buffer b).ctx = some c) (hc : s.context c = some ctx) :
    (s.retired b [] c ctx).wakeIdle.Ok where
  buffers := (h.buffers.retired hr hb hc).same rfl rfl rfl rfl rfl
  calls := ⟨(h.calls.retired b [] c ctx).live, (h.calls.retired b [] c ctx).data⟩
  device := ⟨fun _ => ⟨(h.device.finished hi).2, rfl⟩, by rintro _ _ ⟨⟩⟩
  calm _ := rfl
  enabled hp := h.enabled ((Sys.wakeIdle_awake _).symm.trans hp)

theorem Sys.Ok.isrNext (h : s.Ok) {next : Nat} {rest : List Nat} {ctx' : Context}
    (hr : s.buffersRunning = b :: next :: rest)
    (hb : (s.buffer b).ctx = some c) (hc : s.context c = some ctx) :
    Sys.Ok { s.retired b (next :: rest) c ctx with
      dev := (s.retired b (next :: rest) c ctx).dev.begin next
        ((s.retired b (next :: rest) c ctx).buffer next) ctx' } where
  buffers := (h.buffers.retired hr hb hc).same rfl rfl rfl rfl rfl
  calls := ⟨(h.calls.retired b _ c ctx).live, (h.calls.retired b _ c ctx).data⟩
  device := Sys.DeviceOk.begin (u := s.retired b (next :: rest) c ctx) (b := next) rfl rfl rfl
  calm hp := by
    have := h.calm hp
    rw [hr] at this
    cases this
  enabled := h.enabled

theorem Sys.Ok.power (h : s.Ok) (hq : QuietSuspend s .power) (hs : s.powerStep = some t) : t.Ok := by
  -- in the loop only `power` changes, and behind it nothing runs
  have hloop : ∀ pc : PowerPc, s.power.awake = true → pc.awake = true →
      Sys.Ok { s with power := pc } := fun pc hs hpc =>
    ⟨h.buffers.same rfl rfl rfl rfl rfl, ⟨h.calls.live, h.calls.data⟩,
      ⟨h.device.idle, h.device.busy⟩, (fun hp => by cases hpc.symm.trans hp), fun _ => h.enabled hs⟩
  have hidle : ∀ pc dev, s.buffersRunning = [] → dev.dataSize = s.dev.dataSize →
      (dev.intr = false ∨ dev.intr = s.dev.intr) → (pc.awake = true → dev.intrEnable = true) →
      Sys.Ok { s with power := pc, dev := dev } := fun pc dev hr hd hi he =>
    ⟨h.buffers.same rfl rfl rfl rfl rfl, ⟨h.calls.live, h.calls.data⟩,
      ⟨fun _ => ⟨hd.trans (h.device.idle hr).1, hi.elim id fun hi => hi.trans (h.device.idle hr).2⟩,
        fun b rest hb => by cases hr.symm.trans hb⟩, fun _ => hr, he⟩
  unfold Sys.powerStep at hs
  split at hs
  · next hp =>
    cases hs
    exact hloop .test (by rw [hp]; rfl) rfl
  · next hp =>
    cases hs
    split
    · exact hloop .retest (by rw [hp]; rfl) rfl
    · next hfree => exact hidle .mask s.dev (hq hp hfree) rfl (.inr rfl) (by rintro ⟨⟩)
  · next hp =>
    cases hs
    split
    · exact hloop .asleep (by rw [hp]; rfl) rfl
    · exact hloop .test (by rw [hp]; rfl) rfl
  · cases hs
  · next hp =>
    cases hs
    exact hidle _ _ (h.calm (by rw [hp]; rfl)) rfl (.inr rfl) (by rintro ⟨⟩)
  · next hp =>
    cases hs
    exact hidle _ _ (h.calm (by rw [hp]; rfl)) rfl (.inl rfl) (by rintro ⟨⟩)
  · next hp =>
    cases hs
    exact hidle _ _ (h.calm (by rw [hp]; rfl)) rfl (.inr rfl) fun _ => rfl

theorem Sys.Ok.step (h : s.Ok) (hq : QuietSuspend s l) (hs : s.Step l t) : t.Ok := by
  obtain ⟨place, hp⟩ := h.buffers.placed
  cases hs with
  | openFile c hc =>
    refine ⟨h.buffers.openFile hc, ⟨fun w call hw => ?_, h.calls.data⟩,
      h.device.congr rfl rfl fun _ _ => rfl, h.calm, h.enabled⟩
    show ((Function.update s.context c _) call.ctx).isSome = true
    by_cases hcc : call.ctx = c
    · simp [hcc]
    · rw [Function.update_of_ne hcc]
      exact h.calls.live w call hw
  | release c ctx hc hpending =>
    refine ⟨h.buffers.release hc hpending, ⟨fun w call hw => ?_, h.calls.data⟩,
      h.device.congr rfl rfl fun _ _ => rfl, h.calm, h.enabled⟩
    have hne : call.ctx ≠ c := hq.1 w call hw
    show ((Function.update s.context c none) call.ctx).isSome = true
    rw [Function.update_of_ne hne]
    exact h.calls.live w call hw
  | write w c data hw hc =>
    refine ⟨h.buffers.setWrite (by simp [Sys.spot, hw]) (WriteCall.loop_spot _),
      h.calls.setWrite rfl (fun _ => id) fun call he => ?_,
      h.device.congr rfl rfl fun _ _ => rfl, h.calm, h.enabled⟩
    cases he
    exact ⟨hc, WriteCall.loop_ended_or _⟩
  | move w step call pc hl hw hpc hpc' =>
    have hdata := h.calls.data_left hw fun ret he => by simp [he, WritePc.waits] at hpc
    exact ⟨h.buffers.setWrite ((Sys.spot_eq hw).trans (WritePc.spot_of_waits hpc))
        (WritePc.spot_of_waits hpc'),
      h.calls.goOn hw rfl (fun _ => id) rfl fun _ => .inr hdata,
      h.device.congr rfl rfl fun _ _ => rfl, h.calm, h.enabled⟩
  | take w call b rest hw hpc hf =>
    have hdata := h.calls.data_left hw fun ret he => by simp [he] at hpc
    exact ⟨h.buffers.take hw hpc hf,
      h.calls.goOn hw rfl (fun _ => id) rfl fun _ => .inr hdata,
      h.device.congr rfl rfl fun _ _ => rfl, h.calm, h.enabled⟩
  | interrupted w call hw hpc =>
    exact ⟨h.buffers.setWrite ((Sys.spot_eq hw).trans (WritePc.spot_of_waits hpc)) rfl,
      h.calls.goOn hw rfl (fun _ => id) rfl fun _ => .inl ⟨_, rfl⟩,
      h.device.congr rfl rfl fun _ _ => rfl, h.calm, h.enabled⟩
  | copy w call b ctx hw hpc hc =>
    have hdata := h.calls.data_left hw fun ret he => by simp [he] at hpc
    have hspot : s.At b (.held w false) := by rw [Sys.At, Sys.spot_eq hw, hpc]; rfl
    refine ⟨h.buffers.fill hw hpc hdata hc,
      h.calls.goOn hw rfl (fun c' hlive => ?_) rfl fun _ => .inr hdata,
      h.device.congr rfl rfl fun b' hb' => ?_, h.calm, h.enabled⟩
    · show ((Function.update s.context call.ctx _) c').isSome = true
      by_cases hcc : c' = call.ctx
      · simp [hcc]
      · rw [Function.update_of_ne hcc]
        exact hlive
    · show ((Function.update s.buffer b _) b').fillSize = _
      rw [Function.update_of_ne]
      rintro rfl
      cases hp.unique hspot hb'
  | fault w call b garbage hw hpc =>
    refine ⟨h.buffers.fault hw hpc garbage EFAULT,
      h.calls.goOn hw rfl (fun _ => id) rfl fun _ => .inl ⟨_, rfl⟩,
      h.device.congr rfl rfl fun b' _ => ?_, h.calm, h.enabled⟩
    show ((Function.update s.buffer b _) b').fillSize = _
    by_cases hb : b' = b
    · subst hb
      rw [Function.update_self]
    · rw [Function.update_of_ne hb]
  | submitFirst w call b c ctx hw hpc hr hb hc => exact h.submitFirst hq hw hpc hr ctx
  | submit w call b hw hpc hr => exact h.submit hq hw hpc hr
  | exit w call ret hw hpc =>
    exact ⟨h.buffers.setWrite (by rw [Sys.spot_eq hw, hpc]; rfl) rfl,
      h.calls.setWrite rfl (fun _ => id) (by rintro _ ⟨⟩),
      h.device.congr rfl rfl fun _ _ => rfl, h.calm, h.enabled⟩
  | read r c len call hc hl =>
    exact ⟨h.buffers.same rfl rfl rfl rfl rfl, ⟨h.calls.live, h.calls.data⟩,
      h.device.congr rfl rfl fun _ _ => rfl, h.calm, h.enabled⟩
  | readStep r step old call hr hc =>
    exact ⟨h.buffers.same rfl rfl rfl rfl rfl, ⟨h.calls.live, h.calls.data⟩,
      h.device.congr rfl rfl fun _ _ => rfl, h.calm, h.enabled⟩
  | finish hd =>
    refine ⟨h.buffers.same rfl rfl rfl rfl rfl, ⟨h.calls.live, h.calls.data⟩,
      ⟨fun hr => absurd (h.device.idle hr).1 hd, fun b rest hr => ?_⟩, h.calm, h.enabled⟩
    exact ⟨(h.device.busy b rest hr).1, .inr ⟨rfl, rfl⟩⟩
  | isrNothing hi => exact h
  | isrLast b c ctx hi hr hb hc => exact h.isrLast hi hr hb hc
  | isrNext b next rest c c' ctx ctx' hi hr hb hc hb' hc' => exact h.isrNext hr hb hc
  | power s' hs => exact h.power hq hs

theorem Sys.Probed.placed (h : s.Probed) :
    s.Placed fun b => if b < ADLERDEV_NUM_BUFFERS then some .free else none where
  at_iff b p := by
    have hspot : ∀ w, s.spot w = none := fun w => by simp [Sys.spot, h.writes]
    cases p <;> simp [Sys.At, h.free, h.running, hspot]
  range b := by simp
  freeNodup := by
    rw [h.free]
    exact List.nodup_reverse.mpr List.nodup_range
  runningNodup := by simp [h.running]

theorem Sys.Probed.ok (h : s.Probed) : s.Ok where
  buffers := by
    have hp := h.placed
    refine ⟨⟨_, hp⟩, fun b p hat => ?_, fun b _ => h.buffer b, fun b c hb => ?_, fun c ctx hc => ?_⟩
    · rw [hp.at_iff] at hat
      simp only [Option.ite_none_right_eq_some, Option.some.injEq] at hat
      obtain ⟨-, rfl⟩ := hat
      exact h.buffer b
    · rw [h.buffer] at hb
      cases hb
    · rw [h.context] at hc
      cases hc
  calls := ⟨fun w call hw => by simp [h.writes] at hw, fun w call hw => by simp [h.writes] at hw⟩
  device := ⟨fun _ => ⟨h.dataSize, h.intr⟩, fun b rest hr => by simp [h.running] at hr⟩
  calm _ := h.running
  enabled _ := h.intrEnable

theorem Sys.Ok.noSuspend (h : adler.ReachOn NoSuspend s) : s.Ok ∧ s.power = .on := by
  refine Lts.invariantOn (P := fun s => s.Ok ∧ s.power = .on)
    (fun s (hs : s.Probed) => ⟨hs.ok, hs.power⟩) (fun s l t _ ih hg hs => ?_) h
  obtain ⟨hok, hon⟩ := ih
  have hstep := Sys.next_step hs
  have hq : QuietSuspend s l := by
    unfold QuietSuspend
    split
    · exact absurd rfl hg.2
    · rw [hon]
      rfl
    · exact hg.1
  exact ⟨hok.step hq hstep, hstep.power_on hon hg.2⟩

theorem Sys.Ok.reach (h : adler.ReachOn QuietSuspend s) : s.Ok :=
  Lts.invariantOn (fun _ => Sys.Probed.ok) (fun _ _ _ _ hok hq hs => hok.step hq (Sys.next_step hs)) h

/-! ### What follows -/

theorem Sys.BuffersOk.somewhere (h : s.BuffersOk) (hb : b < ADLERDEV_NUM_BUFFERS) :
    ∃ p, s.At b p := by
  obtain ⟨place, hp⟩ := h.placed
  cases he : place b with
  | none => exact absurd hb (not_lt.mpr ((hp.range b).mp he))
  | some p => exact ⟨p, (hp.at_iff b p).mpr he⟩

theorem Sys.BuffersOk.filled_ctx (h : s.BuffersOk) (hw : s.writes w = some call)
    (hpc : call.pc = .filled b) : (s.buffer b).ctx = some call.ctx := by
  have hspot : s.At b (.held w true) := by rw [Sys.At, Sys.spot_eq hw, hpc]; rfl
  obtain ⟨call', hw', hctx, -⟩ := h.belongs b _ hspot
  cases hw.symm.trans hw'
  exact hctx

/-- The buffers of a context are those with data. -/
theorem Sys.BuffersOk.mem_owned (h : s.BuffersOk) :
    b ∈ s.owned c ↔ (s.buffer b).ctx = some c ∧ s.Filled b := by
  constructor
  · intro hb
    obtain ⟨hlt, hc⟩ : b < ADLERDEV_NUM_BUFFERS ∧ (s.buffer b).ctx = some c := by
      simpa [Sys.owned] using hb
    refine ⟨hc, ?_⟩
    obtain ⟨p, hat⟩ := h.somewhere hlt
    have hbelongs := h.belongs b p hat
    cases p with
    | free => cases hbelongs.symm.trans hc
    | held w filled =>
      cases filled with
      | false => cases hbelongs.symm.trans hc
      | true => exact .inr ⟨w, hat⟩
    | running => exact .inl hat
  · rintro ⟨hc, hfilled⟩
    obtain ⟨place, hp⟩ := h.placed
    have hlt : b < ADLERDEV_NUM_BUFFERS := by
      rcases hfilled with hat | ⟨w, hat⟩
      · exact hp.lt hat
      · exact hp.lt hat
    simp [Sys.owned, hc, hlt]

theorem Sys.BuffersOk.start (h : s.BuffersOk) (hb : b ∈ s.buffersRunning) :
    (s.start b).isSome = true := by
  obtain ⟨⟨c, hc⟩, -⟩ := h.belongs b .running hb
  simp [Sys.start, hc, h.live b c hc]

/-- The interrupt handler does not crash. -/
theorem Sys.Ok.isr (h : s.Ok) : s.isr.isSome = true := by
  unfold Sys.isr
  split
  · next hi =>
    have hi' : s.dev.intr = true := (Bool.and_eq_true_iff.mp hi).1
    split
    · next hr => exact absurd hr (h.device.finished hi').1
    · next b rest hr =>
      obtain ⟨⟨c, hc⟩, -⟩ := h.buffers.belongs b .running (by simp [Sys.At, hr])
      obtain ⟨ctx, hctx⟩ := Option.isSome_iff_exists.mp (h.buffers.live b c hc)
      have hretire : s.retire b rest = some (s.retired b rest c ctx) := by
        simp only [Sys.retire, hc, hctx, Option.bind_some, Option.map_some]
        rfl
      rw [hretire, Option.bind_some]
      cases rest with
      | nil => rfl
      | cons next rest =>
        exact (h.buffers.retired hr hc hctx).start (List.mem_cons_self (a := next) (l := rest))
  · rfl

/-- `buffers_running` is not empty exactly when the device is busy, or has just finished. -/
theorem Sys.Ok.running_iff (h : s.Ok) :
    s.buffersRunning ≠ [] ↔ s.dev.dataSize ≠ 0 ∨ s.dev.intr = true := by
  constructor
  · intro hr
    obtain ⟨b, rest, hr⟩ := List.exists_cons_of_ne_nil hr
    have hfill := (h.buffers.belongs b .running (by simp [Sys.At, hr])).2
    obtain ⟨-, ⟨hd, -⟩ | ⟨-, hi⟩⟩ := h.device.busy b rest hr
    · exact .inl (by omega)
    · exact .inr hi
  · rintro (hd | hi) hr
    · exact hd (h.device.idle hr).1
    · exact (h.device.finished hi).1 hr

/-- **No buffer is lost or used twice.** Without suspend, in every state: each buffer is in
exactly one place, and no list has it twice; the device is on the head of `buffers_running`, if
there is one, and the interrupt handler does not crash; a filled buffer in the hands of a writer
belongs to its file, `pending_buffers` is the number of the file's buffers that are running or
filled, and the context of a buffer has not been freed. -/
theorem buffers_conserved (h : adler.ReachOn NoSuspend s) :
    (∀ b, b < ADLERDEV_NUM_BUFFERS → ∃! p, s.At b p) ∧
      (s.buffersFree.Nodup ∧ s.buffersRunning.Nodup) ∧
      (s.buffersRunning ≠ [] ↔ s.dev.dataSize ≠ 0 ∨ s.dev.intr = true) ∧
      (∀ b rest, s.buffersRunning = b :: rest → s.dev.dataPtr = b) ∧
      s.isr.isSome = true ∧
      (∀ b w call, s.writes w = some call → call.pc = .filled b →
        (s.buffer b).ctx = some call.ctx) ∧
      (∀ c ctx, s.context c = some ctx → ∃ bs : Finset Nat,
        (∀ b, b ∈ bs ↔ (s.buffer b).ctx = some c ∧ s.Filled b) ∧ ctx.pendingBuffers = bs.card) ∧
      ∀ b c, (s.buffer b).ctx = some c → (s.context c).isSome = true := by
  have hok := (Sys.Ok.noSuspend h).1
  obtain ⟨place, hp⟩ := hok.buffers.placed
  refine ⟨fun b hb => ?_, ⟨hp.freeNodup, hp.runningNodup⟩, hok.running_iff,
    fun b rest hr => (hok.device.busy b rest hr).1, hok.isr,
    fun b w call => hok.buffers.filled_ctx,
    fun c ctx hc => ⟨s.owned c, fun _ => hok.buffers.mem_owned, hok.buffers.pending c ctx hc⟩,
    hok.buffers.live⟩
  obtain ⟨p, hat⟩ := hok.buffers.somewhere hb
  exact ⟨p, hat, fun _ hq => hp.unique hq hat⟩

end

/-- The device after `adlerdev_probe`, with empty pages. -/
def probed : Sys where
  buffersFree := (List.range ADLERDEV_NUM_BUFFERS).reverse
  buffersRunning := []
  buffer _ := ⟨none, [], 0⟩
  context _ := none
  dev := ⟨0, 0, 0, false, true⟩
  writes _ := none
  reads _ := none
  power := .on

theorem probed_probed : probed.Probed :=
  ⟨rfl, rfl, fun _ => rfl, fun _ => rfl, rfl, rfl, rfl, fun _ => rfl, fun _ => rfl, rfl⟩

/-- Two files, one buffer of each: the first has been processed, the second is queued. -/
theorem buffers_conserved_shared : ∃ s, adler.ReachOn NoSuspend s ∧ s.buffersRunning = [15, 14] ∧
    s.dev.intr = true ∧ s.isr.isSome = true := by
  let run : List Label := [.openFile 0, .openFile 1, .write 0 0 [1, 2], .write 1 1 [3],
    .writeStep 0 .test, .writeStep 1 .test, .writeStep 0 .copy, .writeStep 0 .submit,
    .writeStep 1 .copy, .finish, .writeStep 1 .submit]
  let s := (adler.exec probed run).get (by decide +kernel)
  have hs : adler.exec probed run = some s := (Option.some_get _).symm
  have hreach : adler.ReachOn NoSuspend s := by
    have hquiet : ∀ l ∈ run, ∀ s, NoSuspend s l := by simp [run, NoSuspend, ReleasedLast]
    exact (Lts.ReachOn.init probed_probed).exec hquiet hs
  exact ⟨s, hreach, by decide +kernel, by decide +kernel, (buffers_conserved hreach).2.2.2.2.1⟩

end Zso.Adler

import Zso.Adler.Places

/-!
# The sum of a file

All files share the sum register and the queue. A context keeps the sum of what the
device has done for its file; it is loaded into the register when a buffer of the file
is started, by the writer that finds the queue empty or by the interrupt handler, and
stored when the buffer is done.

* `Record` is what has been submitted, per file and per call of write.
* `SumsOk`: the sum of a context, extended by the file's buffers that are still queued,
  is the sum of everything submitted through the file.
* `CallOk`: a call of write has counted the bytes it has submitted, and a buffer it has
  filled has its next chunk.
* `read_samples_submitted`: so a reader, which waits until nothing is pending, gets the
  sum of the file's chunks in the order they were submitted.
-/

namespace Zso.Adler
open Transition

/-- What has been submitted. -/
structure Record where
  /-- the chunks of a file, since it was opened -/
  submitted : Nat → List (List UInt8)
  /-- the bytes of a call of write -/
  sent : Nat → List UInt8
  /-- the data the call was given -/
  data : Nat → List UInt8

def Record.submit (g : Record) (w : Nat) (call : WriteCall) : Record :=
  { g with
    submitted := Function.update g.submitted call.ctx (g.submitted call.ctx ++ [call.chunk])
    sent := Function.update g.sent w (g.sent w ++ call.chunk) }

def note (s : Sys) (l : Label) (g : Record) : Record :=
  match l with
  | .openFile c => { g with submitted := Function.update g.submitted c [] }
  | .write w _ data =>
    { g with sent := Function.update g.sent w [], data := Function.update g.data w data }
  | .writeStep w .submit =>
    match s.writes w with
    | some call => g.submit w call
    | none => g
  | _ => g

def adlerRecord : Lts (Sys × Record) Label := adler.recording (fun _ => True) note

/-- What the device reads from a buffer. -/
def Buffer.chunk (buf : Buffer) : List UInt8 := buf.dataCpu.take buf.fillSize

/-- The chunks of a file that the device is not done with. -/
def Sys.inFlight (s : Sys) (c : Nat) : List (List UInt8) :=
  (s.buffersRunning.filter fun b => (s.buffer b).ctx = some c).map fun b => (s.buffer b).chunk

structure SumsOk (s : Sys) (g : Record) : Prop where
  context : ∀ c ctx, s.context c = some ctx →
    adler32 ctx.sum (s.inFlight c).flatten = adler32 ADLERDEV_SUM_INIT (g.submitted c).flatten
  device : ∀ b rest c ctx, s.buffersRunning = b :: rest → (s.buffer b).ctx = some c →
    s.context c = some ctx →
      s.dev.sum = if s.dev.intr then adler32 ctx.sum (s.buffer b).chunk else ctx.sum

structure CallOk (buffer : Nat → Buffer) (sent data : List UInt8) (call : WriteCall) : Prop where
  res : call.res = sent.length
  ret : ∀ ret, call.pc = .returned ret → ret = call.res ∨ ret < 0 ∧ call.res = 0
  data : sent ++ call.buf = data
  filled : ∀ b, call.pc = .filled b →
    (buffer b).fillSize = call.chunk.length ∧ (buffer b).chunk = call.chunk

def CallsCount (s : Sys) (g : Record) : Prop :=
  ∀ w call, s.writes w = some call → CallOk s.buffer (g.sent w) (g.data w) call

section
variable {s t : Sys} {g k : Record} {b c w : Nat} {call : WriteCall} {co : Option WriteCall}
  {ctx : Context} {l : Label}

theorem adler32_append (sum : UInt32) (xs ys : List UInt8) :
    adler32 sum (xs ++ ys) = adler32 (adler32 sum xs) ys := by
  simp [adler32]

/-! ### Calls of write -/

theorem WriteCall.loop_ret {ret : Int} (h : call.loop.pc = .returned ret) : ret = call.res := by
  unfold WriteCall.loop at h
  dsimp only at h
  split at h
  · exact (WritePc.returned.inj h).symm
  · cases h

theorem WriteCall.cutShort_ret {err ret : Int} (herr : 0 < err)
    (h : (call.cutShort err).pc = .returned ret) : ret = call.res ∨ ret < 0 ∧ call.res = 0 := by
  have h' := (WritePc.returned.inj h).symm
  split at h'
  · exact .inl h'
  · next hres => exact .inr ⟨by omega, not_not.mp hres⟩

theorem WriteCall.loop_filled (h : call.loop.pc = .filled b) : False := by
  unfold WriteCall.loop at h
  dsimp only at h
  split at h <;> cases h

/-- A call takes a step that submits nothing. -/
theorem CallOk.goOn {buffer buffer' : Nat → Buffer} {sent data : List UInt8} {call' : WriteCall}
    (h : CallOk buffer sent data call) (hres : call'.res = call.res) (hbuf : call'.buf = call.buf)
    (hret : ∀ ret, call'.pc = .returned ret → ret = call.res ∨ ret < 0 ∧ call.res = 0)
    (hfilled : ∀ b, call'.pc = .filled b →
      (buffer' b).fillSize = call.chunk.length ∧ (buffer' b).chunk = call.chunk) :
    CallOk buffer' sent data call' where
  res := hres.trans h.res
  ret ret hpc := hres ▸ hret ret hpc
  data := hbuf ▸ h.data
  filled b hpc := by
    have hchunk : call'.chunk = call.chunk := by rw [WriteCall.chunk, hbuf, WriteCall.chunk]
    rw [hchunk]
    exact hfilled b hpc

/-- One call changes, and no buffer that another has filled. -/
theorem CallsCount.setWrite (h : CallsCount s g) (ht : t.writes = Function.update s.writes w co)
    (hbuf : ∀ w' b, w' ≠ w → s.spot w' = some (b, true) → t.buffer b = s.buffer b)
    (hsent : ∀ w', w' ≠ w → k.sent w' = g.sent w') (hdata : ∀ w', w' ≠ w → k.data w' = g.data w')
    (hco : ∀ call, co = some call → CallOk t.buffer (k.sent w) (k.data w) call) :
    CallsCount t k := by
  intro w' call' hw'
  rw [ht] at hw'
  rcases Sys.setWrite_cases hw' with ⟨rfl, he⟩ | ⟨hne, he⟩
  · exact hco call' he
  · rw [hsent w' hne, hdata w' hne]
    have hold := h w' call' he
    refine hold.goOn rfl rfl hold.ret fun b hpc => ?_
    rw [hbuf w' b hne (by rw [Sys.spot_eq he, hpc]; rfl)]
    exact hold.filled b hpc

/-- A call that goes on, and no buffer changes. -/
theorem CallsCount.move (h : CallsCount s g) (hw : s.writes w = some call) {call' : WriteCall}
    (ht : t.writes = Function.update s.writes w (some call')) (hbuffer : t.buffer = s.buffer)
    (hres : call'.res = call.res) (hbuf : call'.buf = call.buf)
    (hret : ∀ ret, call'.pc = .returned ret → ret = call.res ∨ ret < 0 ∧ call.res = 0)
    (hfilled : ∀ b, call'.pc ≠ .filled b) : CallsCount t g := by
  refine h.setWrite ht (fun _ _ _ _ => by rw [hbuffer]) (fun _ _ => rfl) (fun _ _ => rfl)
    fun call'' he => ?_
  cases he
  exact (h w call hw).goOn hres hbuf hret fun b hpc => absurd hpc (hfilled b)

/-! ### Sums -/

theorem Sys.inFlight_congr (hr : t.buffersRunning = s.buffersRunning)
    (hb : ∀ b ∈ s.buffersRunning, t.buffer b = s.buffer b) : t.inFlight c = s.inFlight c := by
  unfold Sys.inFlight
  rw [hr, List.filter_congr fun b hmem => by rw [hb b hmem]]
  exact List.map_congr_left fun b hmem => by rw [hb b (List.mem_of_mem_filter hmem)]

/-- Nothing of what the sums depend on changes. -/
theorem SumsOk.congr (h : SumsOk s g) (hr : t.buffersRunning = s.buffersRunning)
    (hb : ∀ b ∈ s.buffersRunning, t.buffer b = s.buffer b)
    (hctx : ∀ c ctx, t.context c = some ctx → ∃ ctx', s.context c = some ctx' ∧ ctx'.sum = ctx.sum)
    (hdev : t.dev = s.dev) : SumsOk t g where
  context c ctx hc := by
    obtain ⟨ctx', hc', hsum⟩ := hctx c ctx hc
    rw [Sys.inFlight_congr hr hb, ← hsum]
    exact h.context c ctx' hc'
  device b rest c ctx hr' hbuf hc := by
    rw [hr] at hr'
    have hbb := hb b (by simp [hr'])
    rw [hbb] at hbuf
    obtain ⟨ctx', hc', hsum⟩ := hctx c ctx hc
    rw [hdev, hbb, ← hsum]
    exact h.device b rest c ctx' hr' hbuf hc'

theorem SumsOk.openFile (h : SumsOk s g) (hs : s.Ok) (hc : s.context c = none) :
    SumsOk (s.setContext c (some ⟨0, ADLERDEV_SUM_INIT⟩))
      { g with submitted := Function.update g.submitted c [] } := by
  have hnone : ∀ b, (s.buffer b).ctx ≠ some c := by
    intro b hb
    have := hs.buffers.live b c hb
    simp [hc] at this
  have hne : ∀ {c' ctx}, (Function.update s.context c (some ⟨0, ADLERDEV_SUM_INIT⟩)) c' = some ctx →
      c' ≠ c → s.context c' = some ctx := fun hc' hcc => by
    rwa [Function.update_of_ne hcc] at hc'
  refine ⟨fun c' ctx hc' => ?_, fun b rest c' ctx hr hb hc' => ?_⟩
  · by_cases hcc : c' = c
    · subst hcc
      have hempty : s.inFlight c' = [] := by simp [Sys.inFlight, hnone]
      have hctx : (⟨0, ADLERDEV_SUM_INIT⟩ : Context) = ctx := by
        simpa [Sys.setContext] using hc'
      show adler32 ctx.sum (s.inFlight c').flatten = _
      rw [hempty, ← hctx]
      simp
    · show adler32 ctx.sum (s.inFlight c').flatten = _
      rw [h.context c' ctx (hne hc' hcc)]
      simp [hcc]
  · exact h.device b rest c' ctx hr hb (hne hc' fun hcc => hnone b (hcc ▸ hb))

/-- A chunk is queued behind the others. -/
theorem SumsOk.queued (h : SumsOk s g) (hb : (s.buffer b).ctx = some call.ctx)
    (hchunk : (s.buffer b).chunk = call.chunk)
    (hr : t.buffersRunning = s.buffersRunning ++ [b]) (hbuf : t.buffer = s.buffer)
    (hctx : t.context = s.context)
    (hdev : ∀ b rest c ctx, t.buffersRunning = b :: rest → (t.buffer b).ctx = some c →
      t.context c = some ctx →
        t.dev.sum = if t.dev.intr then adler32 ctx.sum (t.buffer b).chunk else ctx.sum) :
    SumsOk t (g.submit w call) := by
  refine ⟨fun c ctx hc => ?_, hdev⟩
  have hold := h.context c ctx (hctx ▸ hc)
  by_cases hcc : c = call.ctx
  · subst hcc
    have hin : t.inFlight call.ctx = s.inFlight call.ctx ++ [call.chunk] := by
      simp [Sys.inFlight, hr, hbuf, hb, hchunk]
    rw [hin]
    simp [Record.submit, adler32_append, hold]
  · have hin : t.inFlight c = s.inFlight c := by
      simp [Sys.inFlight, hr, hbuf, hb, Ne.symm hcc]
    rw [hin, hold]
    simp [Record.submit, hcc]

/-- The head of the queue is done. -/
theorem SumsOk.retired (h : SumsOk s g) (hs : s.Ok) (hi : s.dev.intr = true) {rest : List Nat}
    (hr : s.buffersRunning = b :: rest) (hb : (s.buffer b).ctx = some c)
    (hc : s.context c = some ctx) :
    ∀ c' ctx', (s.retired b rest c ctx).context c' = some ctx' →
      adler32 ctx'.sum ((s.retired b rest c ctx).inFlight c').flatten =
        adler32 ADLERDEV_SUM_INIT (g.submitted c').flatten := by
  intro c' ctx' hc'
  obtain ⟨place, hp⟩ := hs.buffers.placed
  have hnd := hp.runningNodup
  rw [hr, List.nodup_cons] at hnd
  have hother : ∀ b' ∈ rest, (s.retired b rest c ctx).buffer b' = s.buffer b' := fun b' hmem =>
    Function.update_of_ne (by rintro rfl; exact hnd.1 hmem) _ _
  have hin : ∀ c', (s.retired b rest c ctx).inFlight c' =
      { s with buffersRunning := rest }.inFlight c' := fun c' =>
    Sys.inFlight_congr (s := { s with buffersRunning := rest }) rfl hother
  have hc'' : (Function.update s.context c (some ⟨ctx.pendingBuffers - 1, s.dev.sum⟩)) c' =
    some ctx' := hc'
  rw [hin]
  by_cases hcc : c' = c
  · subst hcc
    have hcons : s.inFlight c' =
        (s.buffer b).chunk :: { s with buffersRunning := rest }.inFlight c' := by
      simp [Sys.inFlight, hr, hb]
    have hsum := h.device b rest c' ctx hr hb hc
    rw [if_pos hi] at hsum
    rw [Function.update_self] at hc''
    cases hc''
    rw [← h.context c' ctx hc, hcons, List.flatten_cons, adler32_append, ← hsum]
  · have hskip : s.inFlight c' = { s with buffersRunning := rest }.inFlight c' := by
      simp [Sys.inFlight, hr, hb, Ne.symm hcc]
    rw [Function.update_of_ne hcc] at hc''
    rw [← h.context c' ctx' hc'', hskip]

/-- Only the device, the reads, a writer without a filled buffer or a counter change. -/
theorem SumsOk.same (h : SumsOk s g) (hr : t.buffersRunning = s.buffersRunning)
    (hb : t.buffer = s.buffer) (hctx : t.context = s.context) (hdev : t.dev = s.dev) :
    SumsOk t g :=
  h.congr hr (fun _ _ => by rw [hb]) (fun c ctx hc => ⟨ctx, hctx ▸ hc, rfl⟩) hdev

/-- A buffer that a writer holds is not in the queue. -/
theorem Sys.BuffersOk.held_ne (h : s.BuffersOk) {f : Bool} (hspot : s.spot w = some (b, f))
    {b' : Nat} (hb' : b' ∈ s.buffersRunning) : b' ≠ b := by
  rintro rfl
  obtain ⟨place, hp⟩ := h.placed
  cases hp.unique (p := .held w f) (q := .running) hspot hb'

/-- Two writers hold different buffers. -/
theorem Sys.BuffersOk.spot_ne (h : s.BuffersOk) {f f' : Bool} (hspot : s.spot w = some (b, f))
    {b' w' : Nat} (hne : w' ≠ w) (hspot' : s.spot w' = some (b', f')) : b' ≠ b := by
  rintro rfl
  obtain ⟨place, hp⟩ := h.placed
  cases hp.unique (p := .held w f) (q := .held w' f') hspot hspot'
  exact hne rfl

theorem WritePc.wake_returned {pc : WritePc} {ret : Int} (h : pc.wake = .returned ret) :
    pc = .returned ret := by
  cases pc <;> first | exact h | cases h

theorem WritePc.wake_filled {pc : WritePc} (h : pc.wake = .filled b) : pc = .filled b := by
  cases pc <;> first | exact h | cases h

theorem CallsCount.fill (h : CallsCount s g) (hs : s.Ok) (hw : s.writes w = some call)
    (hpc : call.pc = .holding b) : CallsCount (s.fill w call b ctx) g := by
  have hspot : s.spot w = some (b, false) := by rw [Sys.spot_eq hw, hpc]; rfl
  refine h.setWrite rfl (fun w' b' hne hspot' =>
    Function.update_of_ne (hs.buffers.spot_ne hspot hne hspot') _ _) (fun _ _ => rfl)
    (fun _ _ => rfl) fun call' he => ?_
  cases he
  refine (h w call hw).goOn rfl rfl (by rintro _ ⟨⟩) fun b' he => ?_
  cases he
  simp [Sys.fill, Sys.setBuffer, Sys.setContext, Sys.setWrite, Buffer.chunk]

theorem CallsCount.fault (h : CallsCount s g) (hs : s.Ok) (hw : s.writes w = some call)
    (hpc : call.pc = .holding b) (garbage : List UInt8) :
    CallsCount ({ s.setBuffer b { s.buffer b with dataCpu := garbage } with
      buffersFree := b :: s.buffersFree }.setWrite w (some (call.cutShort EFAULT))) g := by
  have hspot : s.spot w = some (b, false) := by rw [Sys.spot_eq hw, hpc]; rfl
  refine h.setWrite rfl (fun w' b' hne hspot' =>
    Function.update_of_ne (hs.buffers.spot_ne hspot hne hspot') _ _) (fun _ _ => rfl)
    (fun _ _ => rfl) fun call' he => ?_
  cases he
  exact (h w call hw).goOn rfl rfl (fun _ => WriteCall.cutShort_ret (by decide))
    (by rintro _ ⟨⟩)

theorem CallsCount.queued (h : CallsCount s g) (hw : s.writes w = some call)
    (hpc : call.pc = .filled b) (hbuf : t.buffer = s.buffer)
    (ht : t.writes = Function.update s.writes w (some { call with
      res := call.res + (s.buffer b).fillSize
      buf := call.buf.drop (s.buffer b).fillSize }.loop)) : CallsCount t (g.submit w call) := by
  refine h.setWrite ht (fun _ _ _ _ => by rw [hbuf])
    (fun w' hne => by simp [Record.submit, hne]) (fun _ _ => rfl) fun call' he => ?_
  cases he
  have hok := h w call hw
  obtain ⟨hfill, hchunk⟩ := hok.filled b hpc
  refine ⟨?_, fun ret hret => .inl (WriteCall.loop_ret hret), ?_,
    fun b' hpc' => (WriteCall.loop_filled hpc').elim⟩
  · show call.res + (s.buffer b).fillSize = ((g.submit w call).sent w).length
    simp [Record.submit, hok.res, hfill]
  · show (g.submit w call).sent w ++ call.buf.drop (s.buffer b).fillSize = g.data w
    have hsplit : call.chunk ++ call.buf.drop call.chunk.length = call.buf := by
      simp only [WriteCall.chunk, List.length_take]
      rcases le_total PAGE_SIZE call.buf.length with hle | hle
      · rw [min_eq_left hle, List.take_append_drop]
      · rw [min_eq_right hle, List.drop_length, List.take_of_length_le hle, List.append_nil]
    rw [hfill]
    simp only [Record.submit, Function.update_self, List.append_assoc, hsplit]
    exact hok.data

theorem CallsCount.retired (h : CallsCount s g) (hs : s.Ok) {rest : List Nat}
    (hr : s.buffersRunning = b :: rest) (ht : t.writes = (s.retired b rest c ctx).writes)
    (hbuf : t.buffer = (s.retired b rest c ctx).buffer) : CallsCount t g := by
  intro w call hw
  rw [ht] at hw
  obtain ⟨call', hw', rfl⟩ := Sys.wakeFree_cases hw
  have hw'' : s.writes w = some call' := hw'
  have hold := h w call' hw''
  refine hold.goOn rfl rfl (fun ret hpc => hold.ret ret (WritePc.wake_returned hpc)) fun b' hpc => ?_
  have hpc' := WritePc.wake_filled hpc
  have hne : b' ≠ b := by
    have hspot : s.spot w = some (b', true) := by rw [Sys.spot_eq hw'', hpc']; rfl
    exact (hs.buffers.held_ne hspot (by simp [hr])).symm
  have hb' : (s.retired b rest c ctx).buffer b' = s.buffer b' := Function.update_of_ne hne _ _
  rw [hbuf, hb']
  exact hold.filled b' hpc'

/-! ### Steps -/

theorem note_move {step : WriteStep} (hl : step ≠ .submit) : note s (.writeStep w step) g = g := by
  cases step with
  | submit => exact absurd rfl hl
  | _ => rfl

theorem note_submit (hw : s.writes w = some call) :
    note s (.writeStep w .submit) g = g.submit w call := by
  simp [note, hw]

theorem CallsCount.step (h : CallsCount s g) (hs : s.Ok) (hoff : l ≠ .power)
    (hstep : s.Step l t) : CallsCount t (note s l g) := by
  cases hstep with
  | openFile c hc => exact h
  | release c ctx hc hp => exact h
  | write w c data hw hc =>
    refine h.setWrite rfl (fun _ _ _ _ => rfl) (fun w' hne => Function.update_of_ne hne _ _)
      (fun w' hne => Function.update_of_ne hne _ _) fun call he => ?_
    cases he
    refine ⟨?_, fun ret hret => .inl (WriteCall.loop_ret hret), ?_,
      fun b hpc => (WriteCall.loop_filled hpc).elim⟩
    · simp [note, WriteCall.loop]
    · simp [note, WriteCall.loop]
  | move w step call pc hl hw hpc hpc' =>
    rw [note_move hl]
    exact h.move hw rfl rfl rfl rfl (fun ret he => by simp [show pc = _ from he, WritePc.waits] at hpc')
      (fun b he => by simp [show pc = _ from he, WritePc.waits] at hpc')
  | take w call b rest hw hpc hf =>
    exact h.move hw rfl rfl rfl rfl (by rintro _ ⟨⟩) (by rintro _ ⟨⟩)
  | interrupted w call hw hpc =>
    exact h.move hw rfl rfl rfl rfl (fun _ => WriteCall.cutShort_ret (by decide))
      (by rintro _ ⟨⟩)
  | copy w call b ctx hw hpc hc => exact h.fill hs hw hpc
  | fault w call b garbage hw hpc => exact h.fault hs hw hpc garbage
  | submitFirst w call b c ctx hw hpc hr hb hc =>
    rw [note_submit hw]
    exact h.queued hw hpc rfl rfl
  | submit w call b hw hpc hr =>
    rw [note_submit hw]
    exact h.queued hw hpc rfl rfl
  | exit w call ret hw hpc =>
    exact h.setWrite rfl (fun _ _ _ _ => rfl) (fun _ _ => rfl) (fun _ _ => rfl)
      (by rintro _ ⟨⟩)
  | read r c len call hc hl => exact h
  | readStep r step old call hr hc => exact h
  | finish hd => exact h
  | isrNothing hi => exact h
  | isrLast b c ctx hi hr hb hc => exact h.retired hs hr rfl rfl
  | isrNext b next rest c c' ctx ctx' hi hr hb hc hb' hc' => exact h.retired hs hr rfl rfl
  | power s' hp => exact absurd rfl hoff

theorem SumsOk.step (h : SumsOk s g) (hcount : CallsCount s g) (hs : s.Ok) (hoff : l ≠ .power)
    (hstep : s.Step l t) : SumsOk t (note s l g) := by
  cases hstep with
  | openFile c hc => exact h.openFile hs hc
  | release c ctx hc hp =>
    refine h.congr rfl (fun _ _ => rfl) (fun c' ctx' hc' => ⟨ctx', ?_, rfl⟩) rfl
    have hc'' : (Function.update s.context c none) c' = some ctx' := hc'
    by_cases hcc : c' = c
    · simp [hcc] at hc''
    · rwa [Function.update_of_ne hcc] at hc''
  | write w c data hw hc =>
    exact ⟨(h.same rfl rfl rfl rfl).context, (h.same rfl rfl rfl rfl).device⟩
  | move w step call pc hl hw hpc hpc' =>
    rw [note_move hl]
    exact h.same rfl rfl rfl rfl
  | take w call b rest hw hpc hf => exact h.same rfl rfl rfl rfl
  | interrupted w call hw hpc => exact h.same rfl rfl rfl rfl
  | copy w call b ctx hw hpc hc =>
    have hspot : s.spot w = some (b, false) := by rw [Sys.spot_eq hw, hpc]; rfl
    refine h.congr rfl (fun b' hb' => Function.update_of_ne (hs.buffers.held_ne hspot hb') _ _)
      (fun c' ctx' hc' => ?_) rfl
    have hc'' : (Function.update s.context call.ctx _) c' = some ctx' := hc'
    by_cases hcc : c' = call.ctx
    · subst hcc
      rw [Function.update_self] at hc''
      cases hc''
      exact ⟨ctx, hc, rfl⟩
    · rw [Function.update_of_ne hcc] at hc''
      exact ⟨ctx', hc'', rfl⟩
  | fault w call b garbage hw hpc =>
    have hspot : s.spot w = some (b, false) := by rw [Sys.spot_eq hw, hpc]; rfl
    exact h.congr rfl (fun b' hb' => Function.update_of_ne (hs.buffers.held_ne hspot hb') _ _)
      (fun c' ctx' hc' => ⟨ctx', hc', rfl⟩) rfl
  | submitFirst w call b c ctx hw hpc hr hb hc =>
    rw [note_submit hw]
    have hctx := hs.buffers.filled_ctx hw hpc
    refine h.queued hctx ((hcount w call hw).filled b hpc).2 rfl rfl rfl
      fun b' rest c' ctx' hr' hb' hc' => ?_
    have he : s.buffersRunning ++ [b] = b' :: rest := hr'
    rw [hr] at he
    cases he
    cases hb.symm.trans hb'
    cases hc.symm.trans hc'
    have hi : s.dev.intr = false := (hs.device.idle hr).2
    show ctx.sum = if s.dev.intr = true then _ else _
    rw [if_neg (by simp [hi])]
  | submit w call b hw hpc hr =>
    rw [note_submit hw]
    have hctx := hs.buffers.filled_ctx hw hpc
    refine h.queued hctx ((hcount w call hw).filled b hpc).2 rfl rfl rfl
      fun b' rest c' ctx' hr' hb' hc' => ?_
    obtain ⟨b₁, rest₁, hr₁⟩ := List.exists_cons_of_ne_nil hr
    have he : s.buffersRunning ++ [b] = b' :: rest := hr'
    rw [hr₁] at he
    cases he
    exact h.device b' rest₁ c' ctx' hr₁ hb' hc'
  | exit w call ret hw hpc => exact h.same rfl rfl rfl rfl
  | read r c len call hc hl => exact h.same rfl rfl rfl rfl
  | readStep r step old call hr hc => exact h.same rfl rfl rfl rfl
  | finish hd =>
    refine ⟨h.context, fun b rest c ctx hr hb hc => ?_⟩
    obtain ⟨hptr, ⟨hsize, hi⟩ | ⟨hsize, -⟩⟩ := hs.device.busy b rest hr
    · have hsum := h.device b rest c ctx hr hb hc
      rw [if_neg (by simp [hi])] at hsum
      show adler32 s.dev.sum ((s.buffer s.dev.dataPtr).dataCpu.take s.dev.dataSize) = _
      rw [hsum, hptr, hsize]
      rfl
    · exact absurd hsize hd
  | isrNothing hi => exact h
  | isrLast b c ctx hi hr hb hc =>
    exact ⟨h.retired hs hi hr hb hc, by rintro _ _ _ _ ⟨⟩⟩
  | isrNext b next rest c c' ctx ctx' hi hr hb hc hb' hc' =>
    refine ⟨h.retired hs hi hr hb hc, fun b₁ rest₁ c₁ ctx₁ hr₁ hb₁ hc₁ => ?_⟩
    cases hr₁
    cases hb'.symm.trans hb₁
    cases hc'.symm.trans hc₁
    rfl
  | power s' hp => exact absurd rfl hoff

/-! ### Runs -/

theorem adlerRecord_ok {p : Sys × Record}
    (h : adlerRecord.ReachOn (fun p => NoSuspend p.1) p) : SumsOk p.1 p.2 ∧ CallsCount p.1 p.2 := by
  refine Lts.invariantOn (P := fun p => SumsOk p.1 p.2 ∧ CallsCount p.1 p.2)
    (fun p hinit => ?_) (fun p l q hr hp hg hs => ?_) h
  · have hprobed : p.1.Probed := hinit.1
    exact ⟨⟨fun c ctx hc => by simp [hprobed.context] at hc,
      fun b rest c ctx hr => by simp [hprobed.running] at hr⟩,
      fun w call hw => by simp [hprobed.writes] at hw⟩
  · have hok := (Sys.Ok.noSuspend (Lts.ReachOn.forget hr)).1
    obtain ⟨t, ht, rfl⟩ := Option.map_eq_some_iff.mp hs
    have hstep := Sys.next_step ht
    exact ⟨hp.1.step hp.2 hok hg.2 hstep, hp.2.step hok hg.2 hstep⟩

/-- Nothing of a file without pending buffers is in the queue. -/
theorem Sys.Ok.inFlight_nil (h : s.Ok) (hc : s.context c = some ctx)
    (hp : ctx.pendingBuffers = 0) : s.inFlight c = [] := by
  simp [Sys.inFlight, h.buffers.none_refers hc hp]

/-- **The sum of a file.** Without suspend, whatever the files do: the sum that a read samples is
the Adler-32 state, from 1, of the chunks submitted through its file since it was opened, in the
order they were submitted; and what a write returns is the number of bytes it has submitted, or an
error if there are none. Those bytes are a first part of its data. -/
theorem read_samples_submitted {p : Sys × Record}
    (h : adlerRecord.ReachOn (fun p => NoSuspend p.1) p) :
    (∀ r call t, p.1.reads r = some call → p.1.readStep r call .sample = some t →
      t.reads r = some ⟨call.ctx,
        .sampled (adler32 ADLERDEV_SUM_INIT (p.2.submitted call.ctx).flatten)⟩) ∧
    ∀ w call ret, p.1.writes w = some call → call.pc = .returned ret →
      (0 ≤ ret → ret = (p.2.sent w).length) ∧ (ret < 0 → p.2.sent w = []) ∧
        p.2.sent w <+: p.2.data w := by
  obtain ⟨hsums, hcount⟩ := adlerRecord_ok h
  have hok := (Sys.Ok.noSuspend (Lts.ReachOn.forget h)).1
  constructor
  · intro r call t hr hs
    simp only [Sys.readStep, Option.ite_none_right_eq_some] at hs
    obtain ⟨-, hs⟩ := hs
    obtain ⟨ctx, hc, hs⟩ := Option.bind_eq_some_iff.mp hs
    simp only [Option.ite_none_right_eq_some, Option.some.injEq] at hs
    obtain ⟨hp, rfl⟩ := hs
    have hsum := hsums.context call.ctx ctx hc
    rw [hok.inFlight_nil hc hp] at hsum
    rw [← hsum]
    simp [Sys.setRead, adler32]
  · intro w call ret hw hpc
    have hcall := hcount w call hw
    have hres := hcall.res
    refine ⟨fun hle => ?_, fun hlt => ?_, ⟨call.buf, hcall.data⟩⟩
    · rcases hcall.ret ret hpc with he | ⟨hneg, -⟩
      · rw [he, hres]
      · omega
    · rcases hcall.ret ret hpc with he | ⟨-, hzero⟩
      · omega
      · exact List.eq_nil_of_length_eq_zero (by omega)

end

/-- Two files take turns, and the first is read. -/
theorem read_samples_submitted_shared : ∃ p t, adlerRecord.ReachOn (fun p => NoSuspend p.1) p ∧
    p.2.submitted 0 = [[1, 2], [5]] ∧ p.1.readStep 0 ⟨0, .waiting⟩ .sample = some t ∧
    t.reads 0 = some ⟨0, .sampled (adler32 1 [1, 2, 5])⟩ := by
  let run : List Label := [.openFile 0, .openFile 1, .write 0 0 [1, 2], .write 1 1 [3],
    .writeStep 0 .test, .writeStep 1 .test, .writeStep 1 .copy, .writeStep 0 .copy,
    .writeStep 0 .submit, .writeStep 1 .submit, .write 2 0 [5], .writeStep 2 .test,
    .writeStep 2 .copy, .writeStep 2 .submit, .finish, .isr, .finish, .isr, .finish, .isr,
    .read 0 0 4]
  let start : Sys × Record := (probed, ⟨fun _ => [], fun _ => [], fun _ => []⟩)
  let p := (adlerRecord.exec start run).get (by decide +kernel)
  have hp : adlerRecord.exec start run = some p := (Option.some_get _).symm
  have hreach : adlerRecord.ReachOn (fun p => NoSuspend p.1) p := by
    have hinit : adlerRecord.init start := ⟨probed_probed, trivial⟩
    have hquiet : ∀ l ∈ run, ∀ s, NoSuspend s l := by simp [run, NoSuspend, ReleasedLast]
    exact (Lts.ReachOn.init hinit).exec (fun l hl p => hquiet l hl p.1) hp
  let t := (p.1.readStep 0 ⟨0, .waiting⟩ .sample).get (by decide +kernel)
  have ht : p.1.readStep 0 ⟨0, .waiting⟩ .sample = some t := (Option.some_get _).symm
  have hsub : p.2.submitted 0 = [[1, 2], [5]] := by decide +kernel
  have hread := (read_samples_submitted hreach).1 0 ⟨0, .waiting⟩ t rfl ht
  rw [hsub] at hread
  exact ⟨p, t, hreach, hsub, ht, hread⟩

end Zso.Adler

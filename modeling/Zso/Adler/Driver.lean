import Zso.Lib.Transition
import Mathlib.Logic.Function.Basic

/-!
# The driver of the Adler device

`adlerdev.c`: open files write data to one device, page by page, through 16 buffers.
A writer takes a buffer from `buffers_free`, fills it and appends it to
`buffers_running`; the device processes the head of `buffers_running` and raises an
interrupt; the interrupt handler puts the buffer back and starts the next one.

Each label is what one party does without giving up the lock, or what it does to its
own data between two such sections. The device is the one the driver is written for: a
write to DATA_SIZE makes it extend the sum by that many bytes and raise the interrupt
once. The address of a buffer is the number of the buffer.
-/

namespace Zso.Adler
open Transition

def ADLERDEV_NUM_BUFFERS : Nat := 16
def ADLERDEV_SUM_INIT : UInt32 := 1
def ADLERDEV_MOD : UInt32 := 65521
def PAGE_SIZE : Nat := 4096

def EFAULT : Int := 14
def EINVAL : Int := 22
def ERESTARTSYS : Int := 512

/-! ## The sum -/

/-- One byte: the two halves of the Adler-32 state. -/
def adlerByte (sum : UInt32) (byte : UInt8) : UInt32 :=
  let a := ((sum &&& 0xffff) + byte.toUInt32) % ADLERDEV_MOD
  let b := ((sum >>> 16) + a) % ADLERDEV_MOD
  (b <<< 16) ||| a

def adler32 (sum : UInt32) (data : List UInt8) : UInt32 := data.foldl adlerByte sum

/-! ## State -/

/-- `struct adlerdev_buffer` -/
structure Buffer where
  ctx : Option Nat
  dataCpu : List UInt8
  fillSize : Nat

/-- `struct adlerdev_context` -/
structure Context where
  pendingBuffers : Int
  sum : UInt32

/-- The registers. `dataSize` is not 0 while the device is working. -/
structure Device where
  dataPtr : Nat
  dataSize : Nat
  sum : UInt32
  intr : Bool
  intrEnable : Bool

/-- Where a call of `adlerdev_write` is. -/
inductive WritePc
  /-- about to look for a free buffer, under the lock -/
  | test
  /-- in `wait_event_interruptible`, about to test its condition -/
  | retest
  | asleep
  /-- has a buffer -/
  | holding (abuf : Nat)
  /-- has filled it and counted it as pending -/
  | filled (abuf : Nat)
  | returned (ret : Int)
  deriving DecidableEq

/-- A call of `adlerdev_write`, with what is left of the user's data. -/
structure WriteCall where
  ctx : Nat
  buf : List UInt8
  res : Nat
  pc : WritePc

inductive ReadPc
  | waiting
  | sampled (sum : UInt32)
  | returned (ret : Int)
  deriving DecidableEq

/-- A call of `adlerdev_read`. -/
structure ReadCall where
  ctx : Nat
  pc : ReadPc

/-- Where suspend and resume are. -/
inductive PowerPc
  | on
  /-- `adlerdev_suspend`, about to look for a free buffer -/
  | test
  | retest
  | asleep
  /-- about to disable interrupts -/
  | mask
  /-- `adlerdev_suspend` has returned -/
  | suspended
  /-- `adlerdev_resume`, about to enable interrupts -/
  | resuming
  deriving DecidableEq

/-- The device, its buffers, the contexts of open files, and the calls under way. -/
structure Sys where
  buffersFree : List Nat
  buffersRunning : List Nat
  buffer : Nat → Buffer
  context : Nat → Option Context
  dev : Device
  writes : Nat → Option WriteCall
  reads : Nat → Option ReadCall
  power : PowerPc

def Sys.setWrite (s : Sys) (w : Nat) (call : Option WriteCall) : Sys :=
  { s with writes := Function.update s.writes w call }

def Sys.setRead (s : Sys) (r : Nat) (call : Option ReadCall) : Sys :=
  { s with reads := Function.update s.reads r call }

def Sys.setContext (s : Sys) (c : Nat) (ctx : Option Context) : Sys :=
  { s with context := Function.update s.context c ctx }

def Sys.setBuffer (s : Sys) (b : Nat) (buf : Buffer) : Sys :=
  { s with buffer := Function.update s.buffer b buf }

/-! ## The device -/

/-- The three register writes that start a buffer. Without a context there is nothing
to read the sum from. -/
def Sys.start (s : Sys) (b : Nat) : Option Sys :=
  ((s.buffer b).ctx.bind s.context).map fun ctx =>
    { s with
      dev := { s.dev with dataPtr := b, sum := ctx.sum, dataSize := (s.buffer b).fillSize } }

/-- The device is done with its data. -/
def Sys.finish (s : Sys) : Option Sys :=
  if s.dev.dataSize = 0 then none
  else some
    { s with
      dev := { s.dev with
        sum := adler32 s.dev.sum ((s.buffer s.dev.dataPtr).dataCpu.take s.dev.dataSize)
        dataSize := 0
        intr := true } }

/-! ## The interrupt handler -/

def WritePc.wake : WritePc → WritePc
  | .asleep => .retest
  | pc => pc

/-- `wake_up(&dev->free_wq)` -/
def Sys.wakeFree (s : Sys) : Sys :=
  { s with writes := fun w => (s.writes w).map fun call => { call with pc := call.pc.wake } }

/-- `wake_up(&dev->idle_wq)` -/
def Sys.wakeIdle (s : Sys) : Sys :=
  { s with power := match s.power with
    | .asleep => .retest
    | pc => pc }

/-- The head of `buffers_running` goes back to `buffers_free`. -/
def Sys.retire (s : Sys) (b : Nat) (rest : List Nat) : Option Sys :=
  (s.buffer b).ctx.bind fun c => (s.context c).map fun ctx =>
    let s := { s with
      dev := { s.dev with intr := false }
      buffersRunning := rest
      buffersFree := b :: s.buffersFree }
    let s := s.setContext c (some ⟨ctx.pendingBuffers - 1, s.dev.sum⟩)
    (s.setBuffer b { s.buffer b with ctx := none }).wakeFree

/-- `adlerdev_isr`. It crashes at the BUG_ON, or if the buffer has no context. -/
def Sys.isr (s : Sys) : Option Sys :=
  if s.dev.intr && s.dev.intrEnable then
    match s.buffersRunning with
    | [] => none
    | b :: rest =>
      (s.retire b rest).bind fun s =>
        match rest with
        | [] => some s.wakeIdle
        | next :: _ => s.start next
  else some s

/-! ## Files -/

/-- `adlerdev_open` -/
def Sys.openFile (s : Sys) (c : Nat) : Option Sys :=
  if (s.context c).isNone then some (s.setContext c (some ⟨0, ADLERDEV_SUM_INIT⟩)) else none

/-- `adlerdev_release`, when there are no pending buffers. -/
def Sys.release (s : Sys) (c : Nat) : Option Sys :=
  (s.context c).bind fun ctx =>
    if ctx.pendingBuffers = 0 then some (s.setContext c none) else none

/-- What a write that was cut short returns. -/
def WriteCall.cutShort (call : WriteCall) (err : Int) : WriteCall :=
  { call with pc := .returned (if call.res ≠ 0 then call.res else -err) }

/-- The loop condition of `adlerdev_write`. -/
def WriteCall.loop (call : WriteCall) : WriteCall :=
  { call with pc := if call.buf = [] then .returned call.res else .test }

/-- The chunk the loop body is about. -/
def WriteCall.chunk (call : WriteCall) : List UInt8 := call.buf.take PAGE_SIZE

/-- What a writer does next. -/
inductive WriteStep
  /-- looks for a free buffer -/
  | test
  | retest
  /-- is interrupted -/
  | signal
  /-- `copy_from_user` succeeds -/
  | copy
  /-- `copy_from_user` fails and leaves `garbage` -/
  | fault (garbage : List UInt8)
  | submit
  | exit
  deriving DecidableEq

/-- A step of `adlerdev_write`. -/
def Sys.writeStep (s : Sys) (w : Nat) (call : WriteCall) : WriteStep → Option Sys
  | .test =>
    if call.pc = .test then
      match s.buffersFree with
      | [] => some (s.setWrite w (some { call with pc := .retest }))
      | b :: rest =>
        some ({ s with buffersFree := rest }.setWrite w (some { call with pc := .holding b }))
    else none
  | .retest =>
    if call.pc = .retest then
      some (s.setWrite w (some { call with pc := if s.buffersFree = [] then .asleep else .test }))
    else none
  | .signal =>
    if call.pc = .retest ∨ call.pc = .asleep then
      if s.buffersFree = [] then some (s.setWrite w (some (call.cutShort ERESTARTSYS)))
      else some (s.setWrite w (some { call with pc := .test }))
    else none
  | .copy =>
    match call.pc with
    | .holding b => (s.context call.ctx).map fun ctx =>
      let old := (s.buffer b).dataCpu
      let s := s.setBuffer b
        ⟨some call.ctx, call.chunk ++ old.drop call.chunk.length, call.chunk.length⟩
      let s := s.setContext call.ctx (some { ctx with pendingBuffers := ctx.pendingBuffers + 1 })
      s.setWrite w (some { call with pc := .filled b })
    | _ => none
  | .fault garbage =>
    match call.pc with
    | .holding b =>
      let s := s.setBuffer b { s.buffer b with dataCpu := garbage }
      some ({ s with buffersFree := b :: s.buffersFree }.setWrite w (some (call.cutShort EFAULT)))
    | _ => none
  | .submit =>
    match call.pc with
    | .filled b =>
      (if s.buffersRunning = [] then s.start b else some s).map fun s =>
        { s with buffersRunning := s.buffersRunning ++ [b] }.setWrite w
          (some { call with
            res := call.res + (s.buffer b).fillSize
            buf := call.buf.drop (s.buffer b).fillSize }.loop)
    | _ => none
  | .exit =>
    match call.pc with
    | .returned _ => some (s.setWrite w none)
    | _ => none

/-- What a reader does next. -/
inductive ReadStep
  | sample
  | signal
  | copy (fault : Bool)
  | exit
  deriving DecidableEq

/-- A step of `adlerdev_read`. -/
def Sys.readStep (s : Sys) (r : Nat) (call : ReadCall) : ReadStep → Option Sys
  | .sample =>
    if call.pc = .waiting then
      (s.context call.ctx).bind fun ctx =>
        if ctx.pendingBuffers = 0 then
          some (s.setRead r (some { call with pc := .sampled ctx.sum }))
        else none
    else none
  | .signal =>
    if call.pc = .waiting then
      (s.context call.ctx).bind fun ctx =>
        if ctx.pendingBuffers = 0 then none
        else some (s.setRead r (some { call with pc := .returned (-ERESTARTSYS) }))
    else none
  | .copy fault =>
    match call.pc with
    | .sampled _ =>
      some (s.setRead r (some { call with pc := .returned (if fault then -EFAULT else 4) }))
    | _ => none
  | .exit =>
    match call.pc with
    | .returned _ => some (s.setRead r none)
    | _ => none

/-! ## Suspend and resume -/

/-- A step of `adlerdev_suspend` or `adlerdev_resume`. -/
def Sys.powerStep (s : Sys) : Option Sys :=
  match s.power with
  | .on => some { s with power := .test }
  | .test => some { s with power := if s.buffersFree = [] then .retest else .mask }
  | .retest => some { s with power := if s.buffersFree = [] then .asleep else .test }
  | .asleep => none
  | .mask => some { s with power := .suspended, dev := { s.dev with intrEnable := false } }
  | .suspended => some { s with power := .resuming, dev := { s.dev with intr := false } }
  | .resuming => some { s with power := .on, dev := { s.dev with intrEnable := true } }

/-! ## The system -/

inductive Label
  | openFile (c : Nat)
  | release (c : Nat)
  /-- a call of `adlerdev_write` starts -/
  | write (w c : Nat) (data : List UInt8)
  | writeStep (w : Nat) (step : WriteStep)
  /-- a call of `adlerdev_read` starts -/
  | read (r c len : Nat)
  | readStep (r : Nat) (step : ReadStep)
  | finish
  | isr
  | power

def Sys.next (s : Sys) : Label → Option Sys
  | .openFile c => s.openFile c
  | .release c => s.release c
  | .write w c data =>
    if (s.writes w).isNone ∧ (s.context c).isSome then
      some (s.setWrite w (some (WriteCall.loop ⟨c, data, 0, .test⟩)))
    else none
  | .writeStep w step => (s.writes w).bind fun call => s.writeStep w call step
  | .read r c len =>
    if (s.reads r).isNone ∧ (s.context c).isSome then
      some (s.setRead r (some ⟨c, if len = 4 then .waiting else .returned (-EINVAL)⟩))
    else none
  | .readStep r step => (s.reads r).bind fun call => s.readStep r call step
  | .finish => s.finish
  | .isr => s.isr
  | .power => s.powerStep

/-- The device as `adlerdev_probe` leaves it. -/
structure Sys.Probed (s : Sys) : Prop where
  free : s.buffersFree = (List.range ADLERDEV_NUM_BUFFERS).reverse
  running : s.buffersRunning = []
  buffer : ∀ b, (s.buffer b).ctx = none
  context : ∀ c, s.context c = none
  dataSize : s.dev.dataSize = 0
  intr : s.dev.intr = false
  intrEnable : s.dev.intrEnable = true
  writes : ∀ w, s.writes w = none
  reads : ∀ r, s.reads r = none
  power : s.power = .on

def adler : Lts Sys Label where
  init := Sys.Probed
  next := Sys.next

/-- A file is released when no call on it is under way. -/
def ReleasedLast (s : Sys) : Label → Prop
  | .release c => (∀ w call, s.writes w = some call → call.ctx ≠ c) ∧
      ∀ r call, s.reads r = some call → call.ctx ≠ c
  | _ => True

/-! ## What a step can do -/

/-- A writer that has no buffer. -/
def WritePc.waits : WritePc → Bool
  | .test => true
  | .retest => true
  | .asleep => true
  | _ => false

/-- The registers when a buffer is started. -/
def Device.begin (d : Device) (b : Nat) (buf : Buffer) (ctx : Context) : Device :=
  { d with dataPtr := b, sum := ctx.sum, dataSize := buf.fillSize }

/-- The state when a buffer is back. -/
def Sys.retired (s : Sys) (b : Nat) (rest : List Nat) (c : Nat) (ctx : Context) : Sys :=
  (({ s with
    dev := { s.dev with intr := false }
    buffersRunning := rest
    buffersFree := b :: s.buffersFree }.setContext c
      (some ⟨ctx.pendingBuffers - 1, s.dev.sum⟩)).setBuffer b
        { s.buffer b with ctx := none }).wakeFree

/-- The state when a buffer is queued. -/
def Sys.queued (s : Sys) (w : Nat) (call : WriteCall) (b : Nat) : Sys :=
  { s with buffersRunning := s.buffersRunning ++ [b] }.setWrite w
    (some { call with
      res := call.res + (s.buffer b).fillSize
      buf := call.buf.drop (s.buffer b).fillSize }.loop)

/-- The state when a buffer is filled. -/
def Sys.fill (s : Sys) (w : Nat) (call : WriteCall) (b : Nat) (ctx : Context) : Sys :=
  ((s.setBuffer b ⟨some call.ctx,
      call.chunk ++ (s.buffer b).dataCpu.drop call.chunk.length, call.chunk.length⟩).setContext
    call.ctx (some { ctx with pendingBuffers := ctx.pendingBuffers + 1 })).setWrite w
      (some { call with pc := .filled b })

inductive Sys.Step (s : Sys) : Label → Sys → Prop
  | openFile (c : Nat) (hc : s.context c = none) :
    Step s (.openFile c) (s.setContext c (some ⟨0, ADLERDEV_SUM_INIT⟩))
  | release (c : Nat) (ctx : Context) (hc : s.context c = some ctx)
      (hp : ctx.pendingBuffers = 0) : Step s (.release c) (s.setContext c none)
  | write (w c : Nat) (data : List UInt8) (hw : s.writes w = none)
      (hc : (s.context c).isSome = true) :
    Step s (.write w c data) (s.setWrite w (some (WriteCall.loop ⟨c, data, 0, .test⟩)))
  | move (w : Nat) (step : WriteStep) (call : WriteCall) (pc : WritePc)
      (hl : step ≠ .submit) (hw : s.writes w = some call) (hpc : call.pc.waits = true)
      (hpc' : pc.waits = true) :
    Step s (.writeStep w step) (s.setWrite w (some { call with pc := pc }))
  | take (w : Nat) (call : WriteCall) (b : Nat) (rest : List Nat) (hw : s.writes w = some call)
      (hpc : call.pc = .test) (hf : s.buffersFree = b :: rest) :
    Step s (.writeStep w .test)
      ({ s with buffersFree := rest }.setWrite w (some { call with pc := .holding b }))
  | interrupted (w : Nat) (call : WriteCall) (hw : s.writes w = some call)
      (hpc : call.pc.waits = true) :
    Step s (.writeStep w .signal) (s.setWrite w (some (call.cutShort ERESTARTSYS)))
  | copy (w : Nat) (call : WriteCall) (b : Nat) (ctx : Context) (hw : s.writes w = some call)
      (hpc : call.pc = .holding b) (hc : s.context call.ctx = some ctx) :
    Step s (.writeStep w .copy) (s.fill w call b ctx)
  | fault (w : Nat) (call : WriteCall) (b : Nat) (garbage : List UInt8)
      (hw : s.writes w = some call) (hpc : call.pc = .holding b) :
    Step s (.writeStep w (.fault garbage))
      ({ s.setBuffer b { s.buffer b with dataCpu := garbage } with
        buffersFree := b :: s.buffersFree }.setWrite w (some (call.cutShort EFAULT)))
  | submitFirst (w : Nat) (call : WriteCall) (b c : Nat) (ctx : Context)
      (hw : s.writes w = some call) (hpc : call.pc = .filled b) (hr : s.buffersRunning = [])
      (hb : (s.buffer b).ctx = some c) (hc : s.context c = some ctx) :
    Step s (.writeStep w .submit)
      ({ s with dev := s.dev.begin b (s.buffer b) ctx }.queued w call b)
  | submit (w : Nat) (call : WriteCall) (b : Nat) (hw : s.writes w = some call)
      (hpc : call.pc = .filled b) (hr : s.buffersRunning ≠ []) :
    Step s (.writeStep w .submit) (s.queued w call b)
  | exit (w : Nat) (call : WriteCall) (ret : Int) (hw : s.writes w = some call)
      (hpc : call.pc = .returned ret) : Step s (.writeStep w .exit) (s.setWrite w none)
  | read (r c len : Nat) (call : ReadCall) (hc : call.ctx = c) (hl : (s.context c).isSome = true) :
    Step s (.read r c len) (s.setRead r (some call))
  | readStep (r : Nat) (step : ReadStep) (old : ReadCall) (call : Option ReadCall)
      (hr : s.reads r = some old) (hc : ∀ call', call = some call' → call'.ctx = old.ctx) :
    Step s (.readStep r step) (s.setRead r call)
  | finish (hd : s.dev.dataSize ≠ 0) :
    Step s .finish
      { s with
        dev := { s.dev with
          sum := adler32 s.dev.sum ((s.buffer s.dev.dataPtr).dataCpu.take s.dev.dataSize)
          dataSize := 0
          intr := true } }
  | isrNothing (hi : (s.dev.intr && s.dev.intrEnable) = false) : Step s .isr s
  | isrLast (b c : Nat) (ctx : Context) (hi : s.dev.intr = true) (hr : s.buffersRunning = [b])
      (hb : (s.buffer b).ctx = some c) (hc : s.context c = some ctx) :
    Step s .isr (s.retired b [] c ctx).wakeIdle
  | isrNext (b next : Nat) (rest : List Nat) (c c' : Nat) (ctx ctx' : Context)
      (hi : s.dev.intr = true) (hr : s.buffersRunning = b :: next :: rest)
      (hb : (s.buffer b).ctx = some c) (hc : s.context c = some ctx)
      (hb' : ((s.retired b (next :: rest) c ctx).buffer next).ctx = some c')
      (hc' : (s.retired b (next :: rest) c ctx).context c' = some ctx') :
    Step s .isr
      { s.retired b (next :: rest) c ctx with
        dev := (s.retired b (next :: rest) c ctx).dev.begin next
          ((s.retired b (next :: rest) c ctx).buffer next) ctx' }
  | power (s' : Sys) (h : s.powerStep = some s') : Step s .power s'

section
variable {s s' : Sys}

theorem Sys.start_eq {b : Nat} (h : s.start b = some s') :
    ∃ c ctx, (s.buffer b).ctx = some c ∧ s.context c = some ctx ∧
      s' = { s with dev := s.dev.begin b (s.buffer b) ctx } := by
  obtain ⟨ctx, hctx, rfl⟩ := Option.map_eq_some_iff.mp h
  obtain ⟨c, hb, hc⟩ := Option.bind_eq_some_iff.mp hctx
  exact ⟨c, ctx, hb, hc, rfl⟩

theorem Sys.isr_step (h : s.isr = some s') : s.Step .isr s' := by
  unfold Sys.isr at h
  split at h
  · next hi =>
    have hi' : s.dev.intr = true := (Bool.and_eq_true_iff.mp hi).1
    split at h
    · cases h
    · next b rest hr =>
      obtain ⟨t, ht, hnext⟩ := Option.bind_eq_some_iff.mp h
      obtain ⟨c, hb, ht⟩ := Option.bind_eq_some_iff.mp ht
      obtain ⟨ctx, hc, rfl⟩ := Option.map_eq_some_iff.mp ht
      cases rest with
      | nil =>
        cases hnext
        exact .isrLast b c ctx hi' hr hb hc
      | cons b' rest =>
        obtain ⟨c', ctx', hb', hc', rfl⟩ := Sys.start_eq hnext
        exact .isrNext b b' rest c c' ctx ctx' hi' hr hb hc hb' hc'
  · next hi =>
    cases h
    exact .isrNothing (by simpa using hi)

theorem Sys.writeStep_step {w : Nat} {call : WriteCall} {step : WriteStep}
    (hw : s.writes w = some call) (h : s.writeStep w call step = some s') :
    s.Step (.writeStep w step) s' := by
  cases step with
  | test =>
    simp only [Sys.writeStep] at h
    split at h
    · next hpc =>
      split at h
      · cases h
        exact .move w .test call .retest (by simp) hw (by rw [hpc]; rfl) rfl
      · next b rest hf =>
        cases h
        exact .take w call b rest hw hpc hf
    · cases h
  | retest =>
    simp only [Sys.writeStep] at h
    split at h
    · next hpc =>
      cases h
      exact .move w .retest call _ (by simp) hw (by rw [hpc]; rfl) (by split <;> rfl)
    · cases h
  | signal =>
    simp only [Sys.writeStep] at h
    split at h
    · next hpc =>
      have hwaits : call.pc.waits = true := by rcases hpc with hpc | hpc <;> rw [hpc] <;> rfl
      split at h
      · cases h
        exact .interrupted w call hw hwaits
      · cases h
        exact .move w .signal call .test (by simp) hw hwaits rfl
    · cases h
  | copy =>
    simp only [Sys.writeStep] at h
    split at h
    · next b hpc =>
      obtain ⟨ctx, hc, rfl⟩ := Option.map_eq_some_iff.mp h
      exact .copy w call b ctx hw hpc hc
    · cases h
  | fault garbage =>
    simp only [Sys.writeStep] at h
    split at h
    · next b hpc =>
      cases h
      exact .fault w call b garbage hw hpc
    · cases h
  | submit =>
    simp only [Sys.writeStep] at h
    split at h
    · next b hpc =>
      obtain ⟨t, ht, rfl⟩ := Option.map_eq_some_iff.mp h
      split at ht
      · next hr =>
        obtain ⟨c, ctx, hb, hc, rfl⟩ := Sys.start_eq ht
        exact .submitFirst w call b c ctx hw hpc hr hb hc
      · next hr =>
        cases ht
        exact .submit w call b hw hpc hr
    · cases h
  | exit =>
    simp only [Sys.writeStep] at h
    split at h
    · next ret hpc =>
      cases h
      exact .exit w call ret hw hpc
    · cases h

theorem Sys.readStep_step {r : Nat} {call : ReadCall} {step : ReadStep}
    (hr : s.reads r = some call) (h : s.readStep r call step = some s') :
    s.Step (.readStep r step) s' := by
  cases step with
  | sample =>
    simp only [Sys.readStep] at h
    split at h
    · obtain ⟨ctx, -, h⟩ := Option.bind_eq_some_iff.mp h
      split at h
      · cases h
        exact .readStep r .sample call _ hr (by rintro _ ⟨⟩; rfl)
      · cases h
    · cases h
  | signal =>
    simp only [Sys.readStep] at h
    split at h
    · obtain ⟨ctx, -, h⟩ := Option.bind_eq_some_iff.mp h
      split at h
      · cases h
      · cases h
        exact .readStep r .signal call _ hr (by rintro _ ⟨⟩; rfl)
    · cases h
  | copy fault =>
    simp only [Sys.readStep] at h
    split at h
    · cases h
      exact .readStep r (.copy fault) call _ hr (by rintro _ ⟨⟩; rfl)
    · cases h
  | exit =>
    simp only [Sys.readStep] at h
    split at h
    · cases h
      exact .readStep r .exit call none hr (by rintro _ ⟨⟩)
    · cases h

theorem Sys.next_step {l : Label} (h : s.next l = some s') : s.Step l s' := by
  cases l with
  | openFile c =>
    simp only [Sys.next, Sys.openFile, Option.isNone_iff_eq_none, Option.ite_none_right_eq_some,
      Option.some.injEq] at h
    obtain ⟨hc, rfl⟩ := h
    exact .openFile c hc
  | release c =>
    obtain ⟨ctx, hc, h⟩ := Option.bind_eq_some_iff.mp h
    simp only [Option.ite_none_right_eq_some, Option.some.injEq] at h
    obtain ⟨hp, rfl⟩ := h
    exact .release c ctx hc hp
  | write w c data =>
    simp only [Sys.next, Option.isNone_iff_eq_none, Option.ite_none_right_eq_some,
      Option.some.injEq] at h
    obtain ⟨⟨hw, hc⟩, rfl⟩ := h
    exact .write w c data hw hc
  | writeStep w step =>
    obtain ⟨call, hw, h⟩ := Option.bind_eq_some_iff.mp h
    exact Sys.writeStep_step hw h
  | read r c len =>
    simp only [Sys.next, Option.ite_none_right_eq_some, Option.some.injEq] at h
    obtain ⟨⟨-, hc⟩, rfl⟩ := h
    exact .read r c len _ rfl hc
  | readStep r step =>
    obtain ⟨call, hr, h⟩ := Option.bind_eq_some_iff.mp h
    exact Sys.readStep_step hr h
  | finish =>
    simp only [Sys.next, Sys.finish] at h
    split at h
    · cases h
    · next hd =>
      cases h
      exact .finish hd
  | isr => exact Sys.isr_step h
  | power => exact .power s' h

theorem powerStep_frame (h : s.powerStep = some s') :
    s'.writes = s.writes ∧ s'.buffersFree = s.buffersFree ∧ s'.buffersRunning = s.buffersRunning := by
  unfold Sys.powerStep at h
  split at h <;> cases h <;> exact ⟨rfl, rfl, rfl⟩

end

end Zso.Adler

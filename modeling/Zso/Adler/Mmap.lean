import Zso.Adler.Driver

/-!
# The driver with a mapped buffer

`adlerdev_mmap.c`: the device has one buffer of 64 KiB, which the user maps and fills. A write
of 4 bytes says how many bytes the device has to process, a read of 4 bytes gets the sum. Only one
file can be open, but several calls may be made on it at a time.

`write`, `read` and `release` wait in the same loop until no job is pending. What a call does
with the lock held is one step. The user may change the buffer at any time, so what the device
reads is not known but for its length.

The device is not part of the repository. `adlerdev.h` says that it is working while DATA_SIZE is
not 0. It is assumed to extend SUM by the bytes of the job, to count DATA_SIZE down to 0 and to
raise its interrupt once. Whether a DATA_SIZE of 0 is a job, too, is left open: `zeroEnds` says
whether the device raises its interrupt for it.

* `Phase`: how the driver and the device agree about the job.
* `one_job`: one file, one job at a time, and no warning.
* `read_sums_jobs`: a read gets the sum of all jobs since the file was opened.
* `job_never_ends_iff`: a write of 0 bytes blocks a device that does not answer it for ever.
-/

namespace Zso.Adler.Mmap
open Transition

def EBUSY : Int := 16
def ADLERDEV_BUF_SIZE : Nat := 16 * PAGE_SIZE

/-! ## State -/

/-- What a call on an open file is for. -/
inductive Op
  | write (bytesToWrite : Nat)
  | read
  | release
deriving DecidableEq

inductive Pc
  /-- about to test `buffer_pending`, with the lock -/
  | test
  /-- in `wait_event` or `wait_event_interruptible` -/
  | waiting
  /-- a read that has the sum -/
  | sampled (sum : UInt32)
  | returned (ret : Int)
deriving DecidableEq

structure Call where
  file : Nat
  op : Op
  pc : Pc
deriving DecidableEq

/-- `struct adlerdev_device`, the registers, the files that are open, and the calls under way. -/
structure Sys where
  dataDma : Nat
  sum : UInt32
  isOpen : Bool
  bufferPending : Bool
  dev : Device
  /-- the device has been given a job and has not raised its interrupt for it -/
  busy : Bool
  files : Nat → Bool
  calls : List Call
  /-- the WARN_ON of the interrupt handler has been hit -/
  warned : Bool

def Sys.setPc (s : Sys) (i : Nat) (call : Call) (pc : Pc) : Sys :=
  { s with calls := s.calls.set i { call with pc := pc } }

/-! ## The device and its interrupt -/

/-- The device has processed its data. -/
def Sys.finish (zeroEnds : Bool) (s : Sys) (bytes : List UInt8) : Option Sys :=
  if s.busy = true ∧ (s.dev.dataSize ≠ 0 ∨ zeroEnds = true) ∧ bytes.length = s.dev.dataSize then
    some { s with
      busy := false
      dev := { s.dev with sum := adler32 s.dev.sum bytes, dataSize := 0, intr := true } }
  else none

/-- `adlerdev_isr` -/
def Sys.isr (s : Sys) : Sys :=
  if s.dev.intr && s.dev.intrEnable then
    { s with
      dev := { s.dev with intr := false }
      warned := s.warned || !s.bufferPending
      bufferPending := false
      sum := s.dev.sum }
  else s

/-! ## Calls -/

/-- `adlerdev_open`, with its result. -/
def Sys.adlerdevOpen (s : Sys) (f : Nat) : Sys × Int :=
  if s.isOpen then (s, -EBUSY)
  else
    ({ s with
      sum := ADLERDEV_SUM_INIT
      bufferPending := false
      isOpen := true
      files := Function.update s.files f true }, 0)

/-- The checks of `adlerdev_write`. `arg` is what is read from the user, if it can be. The `int` is
compared with an `unsigned long`. -/
def checkWrite (len : Nat) (arg : Option (BitVec 32)) : Pc × Op :=
  if len ≠ 4 then (.returned (-EINVAL), .write 0)
  else
    match arg with
    | none => (.returned (-EFAULT), .write 0)
    | some bytesToWrite =>
      if ADLERDEV_BUF_SIZE < (bytesToWrite.signExtend 64).toNat then (.returned (-EINVAL), .write 0)
      else (.test, .write bytesToWrite.toNat)

/-- The check of `adlerdev_read`. -/
def checkRead (len : Nat) : Pc := if len ≠ 4 then .returned (-EINVAL) else .test

/-- What the calls do once no job is pending. -/
def Sys.enter (s : Sys) (i : Nat) (call : Call) : Sys :=
  match call.op with
  | .write bytesToWrite =>
    { s with
      bufferPending := true
      busy := true
      dev := { s.dev with
        dataPtr := s.dataDma, sum := s.sum, dataSize := bytesToWrite } }.setPc i call (.returned 4)
  | .read => s.setPc i call (.sampled s.sum)
  | .release =>
    { s with
      isOpen := false
      files := Function.update s.files call.file false }.setPc i call (.returned 0)

/-- The loop of `write`, `read` and `release`. -/
def Sys.test (s : Sys) (i : Nat) (call : Call) : Sys :=
  if s.bufferPending then s.setPc i call .waiting else s.enter i call

/-- A step of the call at place `i`. -/
inductive Step
  | test
  /-- the condition of the wait has come true -/
  | wake
  | signal
  /-- `copy_to_user` -/
  | copy (fault : Bool)
  | exit
deriving DecidableEq

def Sys.callStep (s : Sys) (i : Nat) (call : Call) : Step → Option Sys
  | .test => if call.pc = .test then some (s.test i call) else none
  | .wake =>
    if call.pc = .waiting ∧ s.bufferPending = false then some (s.setPc i call .test) else none
  | .signal =>
    -- `release` uses `wait_event`
    if call.pc = .waiting ∧ s.bufferPending = true ∧ call.op ≠ .release then
      some (s.setPc i call (.returned (-ERESTARTSYS)))
    else none
  | .copy fault =>
    match call.pc with
    | .sampled _ => some (s.setPc i call (.returned (if fault then -EFAULT else 4)))
    | _ => none
  | .exit =>
    match call.pc with
    | .returned _ => some { s with calls := s.calls.eraseIdx i }
    | _ => none

/-! ## The system -/

inductive Label
  | openFile (f : Nat)
  | write (f len : Nat) (arg : Option (BitVec 32))
  | read (f len : Nat)
  /-- the last reference to the file is gone -/
  | release (f : Nat)
  | step (i : Nat) (step : Step)
  | finish (bytes : List UInt8)
  | isr

/-- A call that may still touch the device. -/
def Call.active (call : Call) : Bool :=
  match call.pc with
  | .test | .waiting => true
  | .sampled _ | .returned _ => false

/-- A call on an open file begins. There is none once the file is being released. -/
def Sys.begin (s : Sys) (call : Call) : Option Sys :=
  if s.files call.file = true ∧ s.calls.all (fun k => k.file ≠ call.file || k.op ≠ .release) then
    some { s with calls := s.calls ++ [call] }
  else none

def Sys.next (zeroEnds : Bool) (s : Sys) : Label → Option Sys
  | .openFile f => if s.files f then none else some (s.adlerdevOpen f).1
  | .write f len arg => s.begin ⟨f, (checkWrite len arg).2, (checkWrite len arg).1⟩
  | .read f len => s.begin ⟨f, .read, checkRead len⟩
  | .release f =>
    if s.files f = true ∧ s.calls.all (fun k => k.file ≠ f) then
      some { s with calls := s.calls ++ [⟨f, .release, .test⟩] }
    else none
  | .step i step => s.calls[i]?.bind fun call => s.callStep i call step
  | .finish bytes => s.finish zeroEnds bytes
  | .isr => some s.isr

/-- `adlerdev_probe` has returned. -/
structure Sys.Initial (s : Sys) : Prop where
  isOpen : s.isOpen = false
  bufferPending : s.bufferPending = false
  busy : s.busy = false
  dataSize : s.dev.dataSize = 0
  intr : s.dev.intr = false
  intrEnable : s.dev.intrEnable = true
  files : ∀ f, s.files f = false
  calls : s.calls = []
  warned : s.warned = false

def mmap (zeroEnds : Bool) : Lts Sys Label := ⟨Sys.Initial, Sys.next zeroEnds⟩

/-! ## Jobs -/

/-- The jobs since the file was opened. -/
structure Jobs where
  /-- their sizes, as submitted -/
  submitted : List Nat
  /-- what the device has read for those it is done with -/
  processed : List (List UInt8)

def Jobs.sum (g : Jobs) : UInt32 := adler32 ADLERDEV_SUM_INIT g.processed.flatten

def Jobs.sizes (g : Jobs) : List Nat := g.processed.map List.length

/-- The job a step submits. -/
def submits (s : Sys) : Label → Option Nat
  | .step i .test =>
    match s.calls[i]? with
    | some ⟨_, .write n, .test⟩ => if s.bufferPending then none else some n
    | _ => none
  | _ => none

def note (s : Sys) (l : Label) (g : Jobs) : Jobs :=
  match l with
  | .openFile _ => if s.isOpen then g else ⟨[], []⟩
  | .finish bytes => { g with processed := g.processed ++ [bytes] }
  | _ => { g with submitted := g.submitted ++ (submits s l).toList }

def mmapRecord (zeroEnds : Bool) : Lts (Sys × Jobs) Label :=
  (mmap zeroEnds).recording (fun g => g = ⟨[], []⟩) note

/-- How the driver and the device agree about the job. -/
inductive Phase (zeroEnds : Bool) (s : Sys) (g : Jobs) : Prop
  | rest : s.bufferPending = false → s.busy = false → s.dev.dataSize = 0 → s.dev.intr = false →
      (s.isOpen = true → g.submitted = g.sizes ∧ s.sum = g.sum) → Phase zeroEnds s g
  | working : s.bufferPending = true → s.isOpen = true → s.busy = true → s.dev.intr = false →
      g.submitted = g.sizes ++ [s.dev.dataSize] → s.dev.sum = g.sum → Phase zeroEnds s g
  | reported : s.bufferPending = true → s.isOpen = true → s.busy = false → s.dev.dataSize = 0 →
      s.dev.intr = true → g.submitted = g.sizes → s.dev.sum = g.sum →
      (∃ n, g.submitted.getLast? = some n ∧ (n ≠ 0 ∨ zeroEnds = true)) → Phase zeroEnds s g

structure Inv (zeroEnds : Bool) (s : Sys) (g : Jobs) : Prop where
  phase : Phase zeroEnds s g
  intrEnable : s.dev.intrEnable = true
  warned : s.warned = false
  isOpen : ∀ f, s.files f = true → s.isOpen = true
  one : ∀ f f', s.files f = true → s.files f' = true → f = f'
  active : ∀ call ∈ s.calls, call.active = true → s.files call.file = true
  alone : ∀ (i j : Nat) (call call' : Call), s.calls[i]? = some call → s.calls[j]? = some call' →
    call.op = .release → call'.file = call.file → i = j

section
variable {zeroEnds : Bool} {s s' : Sys} {g : Jobs}

theorem submits_eq_some {l : Label} {n : Nat} (h : submits s l = some n) :
    ∃ i f, l = .step i .test ∧ s.calls[i]? = some ⟨f, .write n, .test⟩ ∧ s.bufferPending = false := by
  unfold submits at h
  split at h
  · split at h
    · next hc =>
      split at h
      · cases h
      · next hp =>
        cases h
        exact ⟨_, _, rfl, hc, Bool.not_eq_true _ ▸ hp⟩
    · cases h
  · cases h

/-- A call keeps its file and what it is for. -/
theorem get_setPc {i : Nat} {call : Call} (hc : s.calls[i]? = some call) (pc : Pc) {j : Nat}
    {c : Call} (h : (s.calls.set i { call with pc := pc })[j]? = some c) :
    ∃ c₀, s.calls[j]? = some c₀ ∧ c.op = c₀.op ∧ c.file = c₀.file ∧ (j ≠ i → c = c₀) := by
  by_cases hji : j = i
  · subst hji
    have hlt : j < s.calls.length := (List.getElem?_eq_some_iff.mp hc).1
    rw [List.getElem?_set_self hlt] at h
    cases h
    exact ⟨call, hc, rfl, rfl, fun hne => absurd rfl hne⟩
  · rw [List.getElem?_set_ne (Ne.symm hji)] at h
    exact ⟨c, h, rfl, rfl, fun _ => rfl⟩

/-- Only the calls change. -/
theorem Inv.calls (h : Inv zeroEnds s g) {cs : List Call}
    (hact : ∀ c ∈ cs, c.active = true → s.files c.file = true)
    (halone : ∀ (i j : Nat) (c c' : Call), cs[i]? = some c → cs[j]? = some c' → c.op = .release →
      c'.file = c.file → i = j) : Inv zeroEnds { s with calls := cs } g := by
  refine ⟨?_, h.intrEnable, h.warned, h.isOpen, h.one, hact, halone⟩
  cases h.phase with
  | rest h1 h2 h3 h4 h5 => exact .rest h1 h2 h3 h4 h5
  | working h1 h2 h3 h4 h5 h6 => exact .working h1 h2 h3 h4 h5 h6
  | reported h1 h2 h3 h4 h5 h6 h7 h8 => exact .reported h1 h2 h3 h4 h5 h6 h7 h8

theorem Inv.alone_set (h : Inv zeroEnds s g) {i : Nat} {call : Call} (hc : s.calls[i]? = some call) (pc : Pc)
    (j k : Nat) (c c' : Call) (hj : (s.calls.set i { call with pc := pc })[j]? = some c)
    (hk : (s.calls.set i { call with pc := pc })[k]? = some c') (hop : c.op = .release)
    (hf : c'.file = c.file) : j = k := by
  obtain ⟨c₀, hj₀, hop₀, hf₀, -⟩ := get_setPc hc pc hj
  obtain ⟨c₁, hk₁, -, hf₁, -⟩ := get_setPc hc pc hk
  exact h.alone j k c₀ c₁ hj₀ hk₁ (hop₀ ▸ hop) (hf₁ ▸ hf₀ ▸ hf)

/-- A call goes on without touching the device. -/
theorem Inv.setPc (h : Inv zeroEnds s g) {i : Nat} {call : Call} (hc : s.calls[i]? = some call) {pc : Pc}
    (hpc : call.active = true ∨ Call.active { call with pc := pc } = false) :
    Inv zeroEnds (s.setPc i call pc) g := by
  refine h.calls (fun c hmem hact => ?_) (h.alone_set hc pc)
  obtain ⟨j, hj⟩ := List.mem_iff_getElem?.mp hmem
  obtain ⟨c₀, hj₀, -, hf, hne⟩ := get_setPc hc pc hj
  by_cases hji : j = i
  · subst hji
    have hlt : j < s.calls.length := (List.getElem?_eq_some_iff.mp hc).1
    rw [List.getElem?_set_self hlt] at hj
    cases hj
    rcases hpc with hpc | hpc
    · exact h.active call (List.mem_iff_getElem?.mpr ⟨j, hc⟩) hpc
    · rw [hact] at hpc
      cases hpc
  · rw [hne hji] at hact ⊢
    exact h.active c₀ (List.mem_iff_getElem?.mpr ⟨j, hj₀⟩) hact

theorem Inv.append (h : Inv zeroEnds s g) {call : Call} (hf : s.files call.file = true)
    (hrel : ∀ c ∈ s.calls, c.file = call.file → c.op ≠ .release ∧ call.op ≠ .release) :
    Inv zeroEnds { s with calls := s.calls ++ [call] } g := by
  refine h.calls (fun c hc hact => ?_) fun i j c c' hi hj hop hfile => ?_
  · rcases List.mem_append.mp hc with hc | hc
    · exact h.active c hc hact
    · rw [List.mem_singleton.mp hc]
      exact hf
  · rw [List.getElem?_append] at hi hj
    split at hi
    · split at hj
      · exact h.alone i j c c' hi hj hop hfile
      · have hj := List.mem_singleton.mp (List.mem_of_getElem? hj)
        subst hj
        exact absurd hop (hrel c (List.mem_of_getElem? hi) hfile.symm).1
    · next hi' =>
      have hc := List.mem_singleton.mp (List.mem_of_getElem? hi)
      subst hc
      split at hj
      · exact absurd hop (hrel c' (List.mem_of_getElem? hj) hfile).2
      · next hj' =>
        have hi₀ := (List.getElem?_eq_some_iff.mp hi).1
        have hj₀ := (List.getElem?_eq_some_iff.mp hj).1
        simp only [List.length_singleton] at hi₀ hj₀
        omega

theorem Inv.erase (h : Inv zeroEnds s g) (k : Nat) : Inv zeroEnds { s with calls := s.calls.eraseIdx k } g := by
  refine h.calls (fun c hc hact => h.active c (List.mem_of_mem_eraseIdx hc) hact)
    fun i j c c' hi hj hop hfile => ?_
  rw [List.getElem?_eraseIdx] at hi hj
  split at hi <;> split at hj
  · exact h.alone i j c c' hi hj hop hfile
  · have := h.alone i (j + 1) c c' hi hj hop hfile
    omega
  · have := h.alone (i + 1) j c c' hi hj hop hfile
    omega
  · have := h.alone (i + 1) (j + 1) c c' hi hj hop hfile
    omega

/-! ## Steps -/

theorem Inv.openFile (h : Inv zeroEnds s g) {f : Nat} (hs : s.next zeroEnds (.openFile f) = some s') :
    Inv zeroEnds s' (note s (.openFile f) g) := by
  change (if s.files f then none else some (s.adlerdevOpen f).1) = some s' at hs
  split at hs
  · cases hs
  · cases hs
    unfold Sys.adlerdevOpen note
    dsimp only
    split
    · exact h
    · next hopen =>
      have hclosed : ∀ f', s.files f' = false := fun f' =>
        Bool.not_eq_true _ ▸ fun hf => hopen (h.isOpen f' hf)
      have hup : ∀ f', Function.update s.files f true f' = true → f' = f := by
        intro f' hf'
        by_contra hne
        rw [Function.update_of_ne hne, hclosed f'] at hf'
        cases hf'
      refine ⟨?_, h.intrEnable, h.warned, fun _ _ => rfl, fun f₁ f₂ h₁ h₂ => ?_, fun c hc hact => ?_,
        h.alone⟩
      · cases h.phase with
        | rest h1 h2 h3 h4 h5 => exact .rest rfl h2 h3 h4 fun _ => ⟨rfl, rfl⟩
        | working h1 h2 => exact absurd h2 hopen
        | reported h1 h2 => exact absurd h2 hopen
      · rw [hup f₁ h₁, hup f₂ h₂]
      · have hf := h.active c hc hact
        rw [hclosed] at hf
        cases hf

theorem note_quiet {l : Label} (hl : submits s l = none) (hopen : ∀ f, l ≠ .openFile f)
    (hfin : ∀ bytes, l ≠ .finish bytes) : note s l g = g := by
  unfold note
  split
  · exact absurd rfl (hopen _)
  · exact absurd rfl (hfin _)
  · rw [hl]
    simp

theorem begin_eq_some {call : Call} (hs : s.begin call = some s') :
    s' = { s with calls := s.calls ++ [call] } ∧ s.files call.file = true ∧
      ∀ c ∈ s.calls, c.file = call.file → c.op ≠ .release := by
  unfold Sys.begin at hs
  split at hs
  · next hok =>
    cases hs
    refine ⟨rfl, hok.1, fun c hc hf hrel => ?_⟩
    have hall := List.all_eq_true.mp hok.2 c hc
    simp [hf, hrel] at hall
  · cases hs

theorem release_eq_some {f : Nat} (hs : s.next zeroEnds (.release f) = some s') :
    s' = { s with calls := s.calls ++ [⟨f, .release, .test⟩] } ∧ s.files f = true ∧
      ∀ c ∈ s.calls, c.file ≠ f := by
  change (if s.files f = true ∧ s.calls.all (fun k => k.file ≠ f) then
    some { s with calls := s.calls ++ [⟨f, .release, .test⟩] } else none) = some s' at hs
  split at hs
  · next hok =>
    cases hs
    exact ⟨rfl, hok.1, fun c hc => by simpa using List.all_eq_true.mp hok.2 c hc⟩
  · cases hs

theorem Inv.begin (h : Inv zeroEnds s g) {call : Call} (hop : call.op ≠ .release)
    (hs : s.begin call = some s') : Inv zeroEnds s' g := by
  obtain ⟨rfl, hf, hrel⟩ := begin_eq_some hs
  exact h.append hf fun c hc hfile => ⟨hrel c hc hfile, hop⟩

theorem Inv.release (h : Inv zeroEnds s g) {f : Nat} (hs : s.next zeroEnds (.release f) = some s') : Inv zeroEnds s' g := by
  obtain ⟨rfl, hf, hnone⟩ := release_eq_some hs
  exact h.append hf fun c hc hfile => absurd hfile (hnone c hc)

/-- A call finds that no job is pending. -/
theorem Inv.enter (h : Inv zeroEnds s g) {i : Nat} {call : Call} (hc : s.calls[i]? = some call)
    (hact : call.active = true) (hp : s.bufferPending = false) :
    Inv zeroEnds (s.enter i call)
      { g with submitted := g.submitted ++ (match call.op with
        | .write n => [n]
        | .read | .release => []) } := by
  have hopen := h.isOpen call.file (h.active call (List.mem_iff_getElem?.mpr ⟨i, hc⟩) hact)
  obtain ⟨hbusy, hz, hintr, hrest⟩ : s.busy = false ∧ s.dev.dataSize = 0 ∧ s.dev.intr = false ∧
      (g.submitted = g.sizes ∧ s.sum = g.sum) := by
    cases h.phase with
    | rest h1 h2 h3 h4 h5 => exact ⟨h2, h3, h4, h5 hopen⟩
    | working h1 => cases hp.symm.trans h1
    | reported h1 => cases hp.symm.trans h1
  unfold Sys.enter
  cases hop : call.op with
  | write n =>
    have hinv : Inv zeroEnds (s.setPc i call (.returned 4)) g := h.setPc hc (.inr rfl)
    refine ⟨?_, h.intrEnable, h.warned, h.isOpen, h.one, hinv.active, hinv.alone⟩
    exact .working rfl hopen rfl hintr (by rw [hrest.1]; rfl) hrest.2
  | read =>
    rw [List.append_nil]
    exact h.setPc hc (.inr rfl)
  | release =>
    rw [List.append_nil]
    have hinv : Inv zeroEnds (s.setPc i call (.returned 0)) g := h.setPc hc (.inr rfl)
    have hnone : ∀ f, Function.update s.files call.file false f = true → False := by
      intro f hf
      by_cases hfc : f = call.file
      · rw [hfc, Function.update_self] at hf
        cases hf
      · rw [Function.update_of_ne hfc] at hf
        exact hfc (h.one f call.file hf (h.active call (List.mem_iff_getElem?.mpr ⟨i, hc⟩) hact))
    refine ⟨.rest hp hbusy hz hintr (fun ho => by cases ho), h.intrEnable, h.warned,
      fun f hf => (hnone f hf).elim, fun f f' hf _ => (hnone f hf).elim, fun c hmem hcact => ?_,
      hinv.alone⟩
    -- no other call on the file is under way
    obtain ⟨j, hj⟩ := List.mem_iff_getElem?.mp hmem
    obtain ⟨c₀, hj₀, -, hf, hne⟩ := get_setPc hc (.returned 0) hj
    have hfile : c.file = call.file :=
      h.one _ _ (hinv.active c hmem hcact) (h.active call (List.mem_iff_getElem?.mpr ⟨i, hc⟩) hact)
    have hij := h.alone i j call c₀ hc hj₀ hop (hf.symm.trans hfile)
    subst hij
    have hlt : i < s.calls.length := (List.getElem?_eq_some_iff.mp hc).1
    have hj' : (s.calls.set i { call with pc := .returned 0 })[i]? = some c := hj
    rw [List.getElem?_set_self hlt] at hj'
    cases hj'
    cases hcact

/-- A step of a call: it finds that no job is pending, it goes on, or it is gone. -/
theorem step_cases {i : Nat} {step : Step} (hs : s.next zeroEnds (.step i step) = some s') :
    ∃ call, s.calls[i]? = some call ∧
      (step = .test ∧ call.pc = .test ∧ s.bufferPending = false ∧ s' = s.enter i call ∨
      submits s (.step i step) = none ∧
        (s' = { s with calls := s.calls.eraseIdx i } ∨
        ∃ pc, (call.active = true ∨ Call.active { call with pc := pc } = false) ∧
          s' = s.setPc i call pc)) := by
  obtain ⟨call, hc, hs⟩ := Option.bind_eq_some_iff.mp hs
  refine ⟨call, hc, ?_⟩
  unfold Sys.callStep at hs
  cases step with
  | test =>
    dsimp only at hs
    split at hs
    · next hpc =>
      cases hs
      unfold Sys.test
      split
      · next hp =>
        refine .inr ⟨?_, .inr ⟨.waiting, .inl (by rw [Call.active, hpc]), rfl⟩⟩
        unfold submits
        dsimp only
        split
        · rw [if_pos hp]
        · rfl
      · next hp => exact .inl ⟨rfl, hpc, Bool.not_eq_true _ ▸ hp, rfl⟩
    · cases hs
  | wake =>
    dsimp only at hs
    split at hs
    · next hpc =>
      cases hs
      exact .inr ⟨rfl, .inr ⟨.test, .inl (by rw [Call.active, hpc.1]), rfl⟩⟩
    · cases hs
  | signal =>
    dsimp only at hs
    split at hs
    · cases hs
      exact .inr ⟨rfl, .inr ⟨_, .inr rfl, rfl⟩⟩
    · cases hs
  | copy fault =>
    dsimp only at hs
    split at hs
    · cases hs
      exact .inr ⟨rfl, .inr ⟨_, .inr rfl, rfl⟩⟩
    · cases hs
  | exit =>
    dsimp only at hs
    split at hs
    · cases hs
      exact .inr ⟨rfl, .inl rfl⟩
    · cases hs

theorem Inv.step (h : Inv zeroEnds s g) {i : Nat} {step : Step} (hs : s.next zeroEnds (.step i step) = some s') :
    Inv zeroEnds s' (note s (.step i step) g) := by
  obtain ⟨call, hc, ⟨rfl, hpc, hp, rfl⟩ | ⟨hnone, hcall⟩⟩ := step_cases hs
  · have hact : call.active = true := by rw [Call.active, hpc]
    have hsub : (submits s (.step i .test)).toList = match call.op with
        | .write n => [n]
        | .read | .release => [] := by
      obtain ⟨f, op, pc⟩ := call
      cases hpc
      unfold submits
      dsimp only
      rw [hc, hp]
      cases op <;> rfl
    have hen := h.enter hc hact hp
    rw [← hsub] at hen
    exact hen
  · rw [note_quiet hnone (fun _ => by rintro ⟨⟩) fun _ => by rintro ⟨⟩]
    rcases hcall with rfl | ⟨pc, hact, rfl⟩
    · exact h.erase i
    · exact h.setPc hc hact

theorem Inv.finish (h : Inv zeroEnds s g) {bytes : List UInt8}
    (hs : s.finish zeroEnds bytes = some s') :
    Inv zeroEnds s' { g with processed := g.processed ++ [bytes] } := by
  unfold Sys.finish at hs
  split at hs
  · next hok =>
    cases hs
    obtain ⟨hbusy, hz, hlen⟩ := hok
    refine ⟨?_, h.intrEnable, h.warned, h.isOpen, h.one, h.active, h.alone⟩
    cases h.phase with
    | working h1 h2 h3 h4 h5 h6 =>
      refine .reported h1 h2 rfl rfl rfl ?_ ?_ ⟨s.dev.dataSize, ?_, hz⟩
      · rw [h5, ← hlen]
        simp [Jobs.sizes]
      · show adler32 s.dev.sum bytes = _
        rw [h6]
        simp [Jobs.sum, adler32, List.foldl_append]
      · rw [h5]
        simp
    | rest h1 h2 => cases hbusy.symm.trans h2
    | reported h1 h2 h3 => cases hbusy.symm.trans h3
  · cases hs

theorem Inv.isr (h : Inv zeroEnds s g) : Inv zeroEnds s.isr g := by
  unfold Sys.isr
  rw [h.intrEnable, Bool.and_true]
  split
  · next hintr =>
    cases h.phase with
    | reported h1 h2 h3 h4 h5 h6 h7 =>
      refine ⟨.rest rfl h3 h4 rfl fun _ => ⟨h6, h7⟩, h.intrEnable, ?_, h.isOpen, h.one, h.active, h.alone⟩
      show (s.warned || !s.bufferPending) = false
      rw [h.warned, h1]
      rfl
    | rest h1 h2 h3 h4 => cases hintr.symm.trans h4
    | working h1 h2 h3 h4 => cases hintr.symm.trans h4
  · exact h

theorem Inv.next (h : Inv zeroEnds s g) {l : Label} (hs : s.next zeroEnds l = some s') : Inv zeroEnds s' (note s l g) := by
  cases l with
  | openFile f => exact h.openFile hs
  | write f len arg =>
    rw [note_quiet rfl (fun _ => by rintro ⟨⟩) fun _ => by rintro ⟨⟩]
    refine h.begin ?_ hs
    unfold checkWrite
    split
    · exact Op.noConfusion
    · split
      · exact Op.noConfusion
      · split <;> exact Op.noConfusion
  | read f len =>
    rw [note_quiet rfl (fun _ => by rintro ⟨⟩) fun _ => by rintro ⟨⟩]
    exact h.begin (by rintro ⟨⟩) hs
  | release f =>
    rw [note_quiet rfl (fun _ => by rintro ⟨⟩) fun _ => by rintro ⟨⟩]
    exact h.release hs
  | step i step => exact h.step hs
  | finish bytes => exact h.finish hs
  | isr =>
    cases hs
    rw [note_quiet rfl (fun _ => by rintro ⟨⟩) fun _ => by rintro ⟨⟩]
    exact h.isr

theorem inv_reach {p : Sys × Jobs} (h : (mmapRecord zeroEnds).Reach p) : Inv zeroEnds p.1 p.2 := by
  refine Lts.invariant (P := fun p => Inv zeroEnds p.1 p.2) (fun p hp => ?_) (fun p l p' _ hinv hs => ?_) h
  · obtain ⟨s, g⟩ := p
    obtain ⟨hi, rfl⟩ := hp
    have hfiles : ∀ f, s.files f = true → False := fun f hf => by
      rw [hi.files f] at hf
      cases hf
    refine ⟨.rest hi.bufferPending hi.busy hi.dataSize hi.intr fun ho => ?_, hi.intrEnable, hi.warned,
      fun f hf => (hfiles f hf).elim, fun f f' hf _ => (hfiles f hf).elim, ?_, ?_⟩
    · cases hi.isOpen.symm.trans ho
    · rw [hi.calls]
      exact fun c hc => absurd hc List.not_mem_nil
    · rw [hi.calls]
      exact fun i j c c' hc => by simp at hc
  · obtain ⟨s', hs', rfl⟩ := Option.map_eq_some_iff.mp hs
    exact hinv.next hs'

end

/-! ## Sizes -/

/-- A job fits into the buffer. -/
def Op.Fits : Op → Prop
  | .write n => n ≤ ADLERDEV_BUF_SIZE
  | .read | .release => True

/-- A negative size is a large one in the comparison. -/
theorem checkWrite_fits (len : Nat) (arg : Option (BitVec 32)) : (checkWrite len arg).2.Fits := by
  unfold checkWrite
  split
  · exact Nat.zero_le _
  · split
    · exact Nat.zero_le _
    · next n =>
      split
      · exact Nat.zero_le _
      · next hle =>
        have hext : n.toNat ≤ (n.signExtend 64).toNat := by
          rw [BitVec.toNat_signExtend, BitVec.toNat_setWidth_of_le (by decide)]
          exact Nat.le_add_right _ _
        exact hext.trans (not_lt.mp hle)

section
variable {zeroEnds : Bool} {s s' : Sys}

theorem fits_set (h : ∀ c ∈ s.calls, c.op.Fits) {i : Nat} {call : Call}
    (hc : s.calls[i]? = some call) (pc : Pc) :
    ∀ c ∈ s.calls.set i { call with pc := pc }, c.op.Fits := by
  intro c hmem
  obtain ⟨j, hj⟩ := List.mem_iff_getElem?.mp hmem
  obtain ⟨c₀, hj₀, hop, -⟩ := get_setPc hc pc hj
  rw [hop]
  exact h c₀ (List.mem_iff_getElem?.mpr ⟨j, hj₀⟩)

theorem fits_append (h : ∀ c ∈ s.calls, c.op.Fits) {call : Call} (hc : call.op.Fits) :
    ∀ c ∈ s.calls ++ [call], c.op.Fits := by
  intro c hmem
  rcases List.mem_append.mp hmem with hmem | hmem
  · exact h c hmem
  · rw [List.mem_singleton.mp hmem]
    exact hc

theorem fits_next (h : ∀ c ∈ s.calls, c.op.Fits) {l : Label}
    (hs : s.next zeroEnds l = some s') : ∀ c ∈ s'.calls, c.op.Fits := by
  cases l with
  | openFile f =>
    change (if s.files f then none else some (s.adlerdevOpen f).1) = some s' at hs
    split at hs
    · cases hs
    · cases hs
      unfold Sys.adlerdevOpen
      split <;> exact h
  | write f len arg =>
    obtain ⟨rfl, -⟩ := begin_eq_some hs
    exact fits_append h (checkWrite_fits len arg)
  | read f len =>
    obtain ⟨rfl, -⟩ := begin_eq_some hs
    exact fits_append h trivial
  | release f =>
    obtain ⟨rfl, -⟩ := release_eq_some hs
    exact fits_append h trivial
  | step i step =>
    obtain ⟨call, hc, ⟨-, -, -, rfl⟩ | ⟨-, rfl | ⟨pc, -, rfl⟩⟩⟩ := step_cases hs
    · unfold Sys.enter
      cases call.op <;> exact fits_set h hc _
    · exact fun c hmem => h c (List.mem_of_mem_eraseIdx hmem)
    · exact fits_set h hc pc
  | finish bytes =>
    change s.finish zeroEnds bytes = some s' at hs
    unfold Sys.finish at hs
    split at hs
    · cases hs
      exact h
    · cases hs
  | isr =>
    cases hs
    unfold Sys.isr
    split <;> exact h

theorem fits_reach (h : (mmap zeroEnds).Reach s) : ∀ c ∈ s.calls, c.op.Fits := by
  refine Lts.invariant (P := fun s => ∀ c ∈ s.calls, c.op.Fits) (fun s hi => ?_)
    (fun s l s' _ hp hs => fits_next hp hs) h
  rw [hi.calls]
  exact fun c hc => absurd hc List.not_mem_nil

end

/-! ## Results -/

/-- **One file, one job.** In every reachable state at most one file is open, and the warning in
the interrupt handler has not been given. The registers are written only when the device is idle
and has no interrupt pending, and the device is never told to read behind the buffer. -/
theorem one_job {zeroEnds : Bool} {s : Sys} {g : Jobs} (h : (mmapRecord zeroEnds).Reach (s, g)) :
    (∀ f f', s.files f = true → s.files f' = true → f = f') ∧ s.warned = false ∧
      ∀ l n, submits s l = some n →
        s.busy = false ∧ s.dev.dataSize = 0 ∧ s.dev.intr = false ∧ n ≤ ADLERDEV_BUF_SIZE := by
  have hinv := inv_reach h
  refine ⟨hinv.one, hinv.warned, fun l n hl => ?_⟩
  obtain ⟨i, f, -, hc, hp⟩ := submits_eq_some hl
  have hfits : n ≤ ADLERDEV_BUF_SIZE :=
    fits_reach (Lts.ReachOn.forget (G := fun _ _ => True) h) _ (List.mem_iff_getElem?.mpr ⟨i, hc⟩)
  cases hinv.phase with
  | rest h1 h2 h3 h4 => exact ⟨h2, h3, h4, hfits⟩
  | working h1 => cases hp.symm.trans h1
  | reported h1 => cases hp.symm.trans h1

/-- The device after the probe, and no jobs. -/
def probed : Sys × Jobs :=
  (⟨4096, 0, false, false, ⟨0, 0, 0, false, true⟩, false, fun _ => false, [], false⟩, ⟨[], []⟩)

theorem probed_initial (zeroEnds : Bool) : (mmapRecord zeroEnds).init probed :=
  ⟨⟨rfl, rfl, rfl, rfl, rfl, rfl, fun _ => rfl, rfl, rfl⟩, rfl⟩

/-- A file is opened, and a job of 3 bytes is about to be submitted. -/
theorem one_job_three :
    ∃ s g, (mmapRecord true).Reach (s, g) ∧ submits s (.step 0 .test) = some 3 ∧
      s.dev.dataSize = 0 := by
  let p := ((mmapRecord true).exec probed [.openFile 0, .write 0 4 (some 3)]).get (by decide +kernel)
  have hp : (mmapRecord true).Reach p :=
    Lts.reach_exec (.init (probed_initial true)) (Option.some_get _).symm
  have hsub : submits p.1 (.step 0 .test) = some 3 := by decide +kernel
  exact ⟨p.1, p.2, hp, hsub, ((one_job hp).2.2 _ _ hsub).2.1⟩

/-- **A read gets the sum of all jobs.** When a read takes the sum, every job submitted since the
file was opened has been processed, with the size it was submitted with, and the sum is that
of what the device has read for them, in their order. -/
theorem read_sums_jobs {zeroEnds : Bool} {s s' : Sys} {g : Jobs}
    (h : (mmapRecord zeroEnds).Reach (s, g)) {i f : Nat} {v : UInt32}
    (hc : s.calls[i]? = some ⟨f, .read, .test⟩) (hs : s.next zeroEnds (.step i .test) = some s')
    (hv : s'.calls[i]? = some ⟨f, .read, .sampled v⟩) : g.submitted = g.sizes ∧ v = g.sum := by
  have hinv := inv_reach h
  have hlt : i < s.calls.length := (List.getElem?_eq_some_iff.mp hc).1
  have hs : some (s.test i ⟨f, .read, .test⟩) = some s' := by
    change s.calls[i]?.bind _ = some s' at hs
    rw [hc] at hs
    exact hs
  cases hs
  unfold Sys.test at hv
  cases hp : s.bufferPending with
  | true =>
    rw [hp, if_pos rfl] at hv
    unfold Sys.setPc at hv
    rw [List.getElem?_set_self hlt] at hv
    cases hv
  | false =>
    rw [hp, if_neg Bool.false_ne_true] at hv
    unfold Sys.enter Sys.setPc at hv
    dsimp only at hv
    rw [List.getElem?_set_self hlt] at hv
    cases hv
    have hopen := hinv.isOpen f
      (hinv.active ⟨f, .read, .test⟩ (List.mem_iff_getElem?.mpr ⟨i, hc⟩) rfl)
    cases hinv.phase with
    | rest h1 h2 h3 h4 h5 => exact h5 hopen
    | working h1 => cases hp.symm.trans h1
    | reported h1 => cases hp.symm.trans h1

/-- A job of 3 bytes, and a read. -/
theorem read_sums_jobs_three :
    ∃ s s' g v, (mmapRecord true).Reach (s, g) ∧ s.next true (.step 0 .test) = some s' ∧
      s'.calls[0]? = some ⟨0, .read, .sampled v⟩ ∧ g.submitted = [3] ∧ v = g.sum := by
  let run : List Label := [.openFile 0, .write 0 4 (some 3), .step 0 .test, .finish [1, 2, 3], .isr,
    .step 0 .exit, .read 0 4]
  let p := ((mmapRecord true).exec probed run).get (by decide +kernel)
  have hp : (mmapRecord true).Reach p :=
    Lts.reach_exec (.init (probed_initial true)) (Option.some_get _).symm
  have hc : p.1.calls[0]? = some ⟨0, .read, .test⟩ := by decide +kernel
  let s' := (p.1.next true (.step 0 .test)).get (by decide +kernel)
  have hs : p.1.next true (.step 0 .test) = some s' := (Option.some_get _).symm
  have hv : s'.calls[0]? = some ⟨0, .read, .sampled (adler32 1 [1, 2, 3])⟩ := by decide +kernel
  have hjobs : p.2.submitted = [3] := by decide +kernel
  exact ⟨p.1, s', p.2, _, hp, hs, hv, hjobs, (read_sums_jobs hp hc hs hv).2⟩

/-- The driver waits for an interrupt that a device without an answer to a job of 0 bytes will not
raise. -/
structure Sys.Blocked (s : Sys) : Prop where
  bufferPending : s.bufferPending = true
  isOpen : s.isOpen = true
  dataSize : s.dev.dataSize = 0
  intr : s.dev.intr = false

theorem Sys.Blocked.next {s s' : Sys} (h : s.Blocked) {l : Label} (hs : s.next false l = some s') :
    s'.Blocked ∧ s'.files = s.files := by
  have hcalls : ∀ cs, Sys.Blocked { s with calls := cs } :=
    fun _ => ⟨h.bufferPending, h.isOpen, h.dataSize, h.intr⟩
  cases l with
  | openFile f =>
    change (if s.files f then none else some (s.adlerdevOpen f).1) = some s' at hs
    unfold Sys.adlerdevOpen at hs
    rw [if_pos h.isOpen] at hs
    split at hs
    · cases hs
    · cases hs
      exact ⟨h, rfl⟩
  | write f len arg =>
    obtain ⟨rfl, -⟩ := begin_eq_some hs
    exact ⟨hcalls _, rfl⟩
  | read f len =>
    obtain ⟨rfl, -⟩ := begin_eq_some hs
    exact ⟨hcalls _, rfl⟩
  | release f =>
    obtain ⟨rfl, -⟩ := release_eq_some hs
    exact ⟨hcalls _, rfl⟩
  | step i step =>
    obtain ⟨call, hc, ⟨-, -, hp, -⟩ | ⟨-, rfl | ⟨pc, -, rfl⟩⟩⟩ := step_cases hs
    · cases hp.symm.trans h.bufferPending
    · exact ⟨hcalls _, rfl⟩
    · exact ⟨hcalls _, rfl⟩
  | finish bytes =>
    change s.finish false bytes = some s' at hs
    unfold Sys.finish at hs
    have hidle : ¬ (s.dev.dataSize ≠ 0 ∨ false = true) :=
      not_or.mpr ⟨not_not.mpr h.dataSize, Bool.false_ne_true⟩
    rw [if_neg fun hok => hidle hok.2.1] at hs
    cases hs
  | isr =>
    cases hs
    unfold Sys.isr
    rw [h.intr]
    exact ⟨h, rfl⟩

theorem Sys.Blocked.run {s s' : Sys} (h : s.Blocked) {ls : List Label}
    (hs : (mmap false).exec s ls = some s') : s'.Blocked ∧ s'.files = s.files := by
  induction ls generalizing s with
  | nil =>
    cases hs
    exact ⟨h, rfl⟩
  | cons l ls ih =>
    obtain ⟨s₁, h₁, hs⟩ := Option.bind_eq_some_iff.mp hs
    obtain ⟨hb, hf⟩ := h.next h₁
    obtain ⟨hb', hf'⟩ := ih hb hs
    exact ⟨hb', hf'.trans hf⟩

section
variable {zeroEnds : Bool} {s : Sys} {g : Jobs}

/-- A job that the device has no answer to. -/
theorem Inv.blocked (h : Inv false s g) (hp : s.bufferPending = true)
    (hlast : g.submitted.getLast? = some 0) : s.Blocked := by
  cases h.phase with
  | rest h1 => cases hp.symm.trans h1
  | working h1 h2 h3 h4 h5 =>
    rw [h5, List.getLast?_append_of_ne_nil _ (List.cons_ne_nil _ _)] at hlast
    exact ⟨h1, h2, Option.some.inj hlast, h4⟩
  | reported h1 h2 h3 h4 h5 h6 h7 h8 =>
    obtain ⟨n, hlast', hn⟩ := h8
    rw [hlast, Option.some.injEq] at hlast'
    exact absurd hlast'.symm (hn.resolve_right Bool.false_ne_true)

/-- Any other job is processed, and the handler takes note. -/
theorem Inv.job_ends (h : Inv zeroEnds s g) (hp : s.bufferPending = true)
    (hlast : ¬ (g.submitted.getLast? = some 0 ∧ zeroEnds = false)) :
    ∃ ls s', (mmap zeroEnds).exec s ls = some s' ∧ s'.bufferPending = false := by
  cases h.phase with
  | rest h1 => cases hp.symm.trans h1
  | working h1 h2 h3 h4 h5 =>
    have hz : s.dev.dataSize ≠ 0 ∨ zeroEnds = true := by
      by_contra hno
      obtain ⟨hz, hends⟩ := not_or.mp hno
      refine hlast ⟨?_, Bool.not_eq_true _ ▸ hends⟩
      rw [h5, not_not.mp hz]
      simp
    refine ⟨[.finish (List.replicate s.dev.dataSize 0), .isr], ?last, ?run, ?done⟩
    case run =>
      rw [Lts.exec_cons, show (mmap zeroEnds).next s (.finish _) = s.finish zeroEnds _ from rfl,
        Sys.finish, if_pos ⟨h3, hz, List.length_replicate⟩]
      rfl
    case done => simp [Sys.isr, h.intrEnable]
  | reported h1 h2 h3 h4 h5 =>
    refine ⟨[.isr], s.isr, rfl, ?_⟩
    simp [Sys.isr, h5, h.intrEnable]

end

/-- **A write of 0 bytes blocks the device.** A pending job stays pending in all runs if and only if
it is one of 0 bytes and the device raises no interrupt for such a job. Then the file is never
closed, and no other can be opened. -/
theorem job_never_ends_iff {zeroEnds : Bool} {s : Sys} {g : Jobs}
    (h : (mmapRecord zeroEnds).Reach (s, g)) (hp : s.bufferPending = true) :
    ((∀ ls s', (mmap zeroEnds).exec s ls = some s' → s'.bufferPending = true) ↔
      g.submitted.getLast? = some 0 ∧ zeroEnds = false) ∧
    (g.submitted.getLast? = some 0 → zeroEnds = false →
      ∀ ls s', (mmap zeroEnds).exec s ls = some s' → s'.isOpen = true ∧ s'.files = s.files) := by
  have hinv : Inv zeroEnds s g := inv_reach h
  refine ⟨⟨fun hall => ?_, ?_⟩, ?_⟩
  · by_contra hlast
    obtain ⟨ls, s', hs, hdone⟩ := hinv.job_ends hp hlast
    cases (hall ls s' hs).symm.trans hdone
  · rintro ⟨hlast, rfl⟩ ls s' hs
    exact ((hinv.blocked hp hlast).run hs).1.bufferPending
  · rintro hlast rfl ls s' hs
    obtain ⟨hb, hf⟩ := (hinv.blocked hp hlast).run hs
    exact ⟨hb.isOpen, hf⟩

/-- A job of 0 bytes, and a device that raises no interrupt for it. -/
theorem job_never_ends_zero :
    ∃ s g, (mmapRecord false).Reach (s, g) ∧ g.submitted = [0] ∧
      ∀ ls s', (mmap false).exec s ls = some s' → s'.bufferPending = true := by
  let p := ((mmapRecord false).exec probed [.openFile 0, .write 0 4 (some 0), .step 0 .test]).get
    (by decide +kernel)
  have hp : (mmapRecord false).Reach p :=
    Lts.reach_exec (.init (probed_initial false)) (Option.some_get _).symm
  have hjobs : p.2.submitted = [0] := by decide +kernel
  have hlast : p.2.submitted.getLast? = some 0 := by decide +kernel
  have hpend : p.1.bufferPending = true := by decide +kernel
  exact ⟨p.1, p.2, hp, hjobs, (job_never_ends_iff hp hpend).1.mpr ⟨hlast, rfl⟩⟩

end Zso.Adler.Mmap
